import CertSteward.Proofs.Authority.Development
import CertSteward.Run.Program
import Mathlib.Data.List.Nodup

/-!
# The development authority and its clients

The development authority has many clients at a time. What they share lies behind locks that are
held for one access each: the failures that were ordered, the settings, the counters, the table of
orders. Between two accesses of one call anything may happen in other calls, and whoever tries
things out may change the settings. In particular the table is free while a certificate is signed.

A call is a program over such accesses. Run from its beginning to its end while nobody else does
anything, it comes to the answer of the authority and to the authority after the answer.

## Main definitions

* `Edit` — what a call does to the order that it is about
* `Access`, `grant` — one access, and what it gives and changes
* `procedure` — a call as a program over accesses
* `alone` — a program that nobody interrupts
* `Office`, `Move`, `Office.after`, `Office.run` — the authority with its calls, in any interleaving

## Main results

* `alone_procedure` — a call that nobody interrupts is answered as the authority answers
* `Office.exists_run_alone` — such a call is one of the interleavings
-/

namespace CertSteward

namespace DevelopmentAuthority

/-! ### Accesses -/

/-- What a call does to the order that it is about while it holds the table. -/
inductive Edit
  | read
  /-- Looks at the names, some of which are rejected. -/
  | look (rejected : List String)
  /-- A challenge is said to be ready. -/
  | announce (url : String)
  | refresh
  /-- Takes an order that is ready for signing. -/
  | claim
  /-- Puts the certificate into the order, or gives the order up. -/
  | close (certificate : Option String)
deriving DecidableEq, Repr

namespace Edit

/-- The order after the edit. -/
def apply : Edit → Order → Order
  | read, o => o
  | look rejected, o =>
    Order.refresh { o with entries := o.entries.map (DevelopmentAuthority.look rejected) }
  | announce url, o =>
    { o with
      entries := o.entries.map fun e => if e.url = url then { e with isReady := true } else e }
  | refresh, o => o.refresh
  | claim, o =>
    if o.refresh.status = .ready then { o.refresh with status := .processing } else o.refresh
  | close (some certificate), o => { o with status := .valid, certificate := some certificate }
  | close none, o => { o with status := .invalid }

end Edit

@[simp] theorem Order.certificate_refresh (o : Order) :
    o.refresh.certificate = o.certificate := by
  rw [refresh]
  split
  · rfl
  · split
    · rfl
    · split <;> rfl

@[simp] theorem Edit.id_apply (e : Edit) (o : Order) : (e.apply o).id = o.id := by
  cases e with
  | read | announce _ => rfl
  | look _ | refresh => exact Order.id_refresh _
  | claim =>
    rw [apply]
    split <;> simp
  | close c => cases c <;> rfl

/-- Where an order stands when it is closed does not matter. -/
theorem Edit.close_claim (c : Option String) (o : Order) :
    (close c).apply (claim.apply o) = (close c).apply o.refresh := by
  rw [apply]
  split <;> cases c <;> rfl

/-- What is counted. -/
inductive Tally
  | accounts
  | finalizes
  | readies
deriving DecidableEq, Repr

/-- One access to what the calls share. -/
inductive Access
  /-- Takes one of the failures that were ordered. -/
  | fail
  | count (t : Tally)
  /-- Reads what the authority was told. -/
  | settings
  /-- Draws a number that no other call draws. -/
  | name
  /-- Puts a new order into the table. -/
  | enter (o : Order)
  /-- Does something to an order of the table. -/
  | visit (id : String) (e : Edit)
  /-- Takes an order out of the table. -/
  | leave (id : String)
  /-- Revokes a serial number. -/
  | revoke (serial : String)
deriving DecidableEq, Repr

/-- What an access gives. -/
@[reducible] def Access.Answer : Access → Type
  | fail => Bool
  | count _ => Unit
  | settings => DevelopmentAuthority
  | name => Nat
  | enter _ => Unit
  /- The order as it was found. -/
  | visit .. => Option Order
  | leave _ => Unit
  /- Whether it was revoked before. -/
  | revoke _ => Bool

/-- The authority as one sees it who reads the settings: without what changes with the calls. -/
def seen (a : DevelopmentAuthority) : DevelopmentAuthority :=
  { a with
    orders := [], failingCalls := 0, revokedSerials := [], named := 0
    accountCalls := 0, finalizeCalls := 0, readyCalls := 0 }

/-- What an access gives, and the authority after it. -/
def grant (a : DevelopmentAuthority) : (x : Access) → x.Answer × DevelopmentAuthority
  | .fail => (decide (a.failingCalls ≠ 0), { a with failingCalls := a.failingCalls - 1 })
  | .count .accounts => ((), { a with accountCalls := a.accountCalls + 1 })
  | .count .finalizes => ((), { a with finalizeCalls := a.finalizeCalls + 1 })
  | .count .readies => ((), { a with readyCalls := a.readyCalls + 1 })
  | .settings => (a.seen, a)
  | .name => (a.named + 1, { a with named := a.named + 1 })
  | .enter o => ((), { a with orders := a.orders ++ [o] })
  | .visit id e => (a.order? id, a.change id e.apply)
  | .leave id => ((), { a with orders := a.orders.filter fun o => o.id ≠ id })
  | .revoke serial =>
    (a.revokedSerials.contains serial,
      if a.revokedSerials.contains serial then a
      else { a with revokedSerials := a.revokedSerials ++ [serial] })

/-! ### Calls as programs -/

/-- A call, or a part of one. -/
abbrev Dialogue (α : Type) : Type := Program Access Access.Answer α

/-- One access. -/
def access (x : Access) : Dialogue x.Answer := Program.request x

@[simp] theorem access_eq (x : Access) : access x = .ask x .done := rfl

namespace Procedure

/-- Draws the numbers of the names of an order. -/
def newEntries (polls : Nat) : List String → Dialogue (List Entry)
  | [] => pure []
  | identifier :: rest => do
    let token ← access .name
    let url ← access .name
    let entries ← newEntries polls rest
    pure (DevelopmentAuthority.newEntry polls identifier token url :: entries)

/-- Opens an order. -/
def newOrder (identifiers : List String) : Dialogue (Except IssuanceError OrderHandle) :=
  if identifiers = [] then pure (.error (.rejected "new_order" "malformed: no identifiers"))
  else do
    let a ← access .settings
    let entries ← newEntries a.validationPolls identifiers
    let n ← access .name
    let id := nameNumber "order" n
    let _ ← access (.enter { id, entries })
    pure (.ok { id, identifiers })

/-- An edit of an order, and what it says of the order as it was found. -/
def visit {α : Type} (id : String) (e : Edit) (say : Order → Except IssuanceError α) :
    Dialogue (Except IssuanceError α) := do
  match ← access (.visit id e) with
  | none => pure (.error (.unknownOrder id))
  | some o => pure (say o)

/-- Looks at the names of an order and reports them. -/
def authorizations (id : String) : Dialogue (Except IssuanceError (List Authorization)) := do
  let a ← access .settings
  visit id (.look a.rejected) fun o =>
    .ok (((Edit.look a.rejected).apply o).entries.map a.report)

/-- Hears that a challenge is ready. -/
def challengeReady (id url : String) : Dialogue (Except IssuanceError Unit) := do
  let _ ← access (.count .readies)
  visit id (.announce url) fun o =>
    if o.entries.any fun e => e.url = url then .ok ()
    else .error (.rejected "challenge_ready" "unknown challenge")

/-- Says where an order stands. -/
def orderState (id : String) : Dialogue (Except IssuanceError OrderState) :=
  visit id .refresh fun o =>
    .ok { status := o.refresh.status
          error := if o.refresh.status = .invalid then o.entries.findSome? (·.error) else none }

/-- Takes an order that is ready, signs while the table is free, and puts the certificate into the
order. -/
def finalize (now : Instant) (id : String) (csr : List UInt8) :
    Dialogue (Except IssuanceError Unit) := do
  let _ ← access (.count .finalizes)
  let a ← access .settings
  match ← access (.visit id .claim) with
  | none => pure (.error (.unknownOrder id))
  | some o =>
    if o.refresh.status ≠ .ready then pure (.error (.rejected "finalize" "orderNotReady"))
    else
      match CertificateRequest.ofBytes? csr with
      | none => visit id (.close none) fun _ =>
          .error (.rejected "finalize" "badCSR: malformed request")
      | some r => do
        let n ← access .name
        visit id (.close (some (a.certify now n r))) fun _ => .ok ()

/-- Revokes a certificate. -/
def revoke (der : List UInt8) : Dialogue (Except IssuanceError Unit) :=
  match Certificate.ofBytes? der with
  | none => pure (.error (.rejected "revoke" "malformed certificate: unexpected value"))
  | some c => do
    let revoked ← access (.revoke c.serialText)
    if revoked then pure (.error (.rejected "revoke" "alreadyRevoked")) else pure (.ok ())

/-- What a call does that does not fail by command. -/
def serve (now : Instant) : (r : AuthorityRequest) → Dialogue r.Reply
  | .ensureAccount => pure (.ok ())
  | .newOrder identifiers => newOrder identifiers
  | .authorizations o => authorizations o.id
  | .challengeReady o url => challengeReady o.id url
  | .orderState o => orderState o.id
  | .finalize o csr => finalize now o.id csr
  | .certificate o => visit o.id .read fun order => .ok order.certificate
  | .revoke der _ => revoke der
  | .release o => do
    let _ ← access (.leave o.id)
    pure (.ok ())

/-- A call that fails if a failure was ordered. -/
def unlessFailing (r : AuthorityRequest) (call : Dialogue r.Reply) : Dialogue r.Reply :=
  if r.isCall then do
    let failing ← access .fail
    if failing then pure (.error (.transient r.operation "injected service unavailable")) else call
  else call

end Procedure

/-- A call as the accesses it makes. -/
def procedure (now : Instant) (r : AuthorityRequest) : Dialogue r.Reply :=
  let call := Procedure.unlessFailing r (Procedure.serve now r)
  if r = .ensureAccount then access (.count .accounts) >>= fun _ => call else call

/-! ### Calls that nobody interrupts -/

/-- What a program comes to if nobody else does anything, and the authority after it. -/
def alone {α : Type} : Dialogue α → DevelopmentAuthority → α × DevelopmentAuthority
  | .done result, a => (result, a)
  | .ask x next, a => alone (next (a.grant x).1) (a.grant x).2

section Alone

variable {α β : Type} {a : DevelopmentAuthority} {id : String}

@[simp] theorem alone_pure (result : α) : alone (pure result) a = (result, a) := rfl

@[simp] theorem alone_done (result : α) : alone (.done result) a = (result, a) := rfl

@[simp] theorem alone_ask (x : Access) (next : x.Answer → Dialogue α) :
    alone (.ask x next) a = alone (next (a.grant x).1) (a.grant x).2 := rfl

@[simp] theorem alone_bind (p : Dialogue α) (f : α → Dialogue β) :
    alone (p >>= f) a = alone (f (alone p a).1) (alone p a).2 := by
  induction p generalizing a with
  | done result => rfl
  | ask x next ih => exact ih _

@[simp] theorem alone_map (p : Dialogue α) (f : α → β) :
    alone (f <$> p) a = (f (alone p a).1, (alone p a).2) :=
  alone_bind p fun result => .done (f result)

theorem order?_change (a : DevelopmentAuthority) (e : Edit) (id id' : String) :
    (a.change id e.apply).order? id' =
      if id' = id then (a.order? id').map e.apply else a.order? id' := by
  have hid : ((fun o : Order => decide (o.id = id')) ∘
      fun o : Order => if o.id = id then e.apply o else o) = fun o => decide (o.id = id') := by
    funext o
    simp only [Function.comp_apply]
    split <;> simp
  rw [order?, change, List.find?_map, hid, ← order?]
  split
  · next h =>
    subst h
    cases hfind : a.order? id' with
    | none => rfl
    | some o =>
      have ho : o.id = id' := by simpa using List.find?_some hfind
      simp [ho]
  · next h =>
    cases hfind : a.order? id' with
    | none => rfl
    | some o =>
      have ho : o.id = id' := by simpa using List.find?_some hfind
      simp [ho, h]

theorem change_change (a : DevelopmentAuthority) (id : String) (e : Edit) (f : Order → Order) :
    (a.change id e.apply).change id f = a.change id fun o => f (e.apply o) := by
  simp only [change, List.map_map]
  congr 2
  funext o
  by_cases h : o.id = id <;> simp [h]

theorem mem_of_order? {o : Order} (h : a.order? id = some o) : o ∈ a.orders ∧ o.id = id :=
  ⟨List.mem_of_find?_eq_some h, by simpa using List.find?_some h⟩

/-- An order has its name for itself. -/
theorem eq_of_order? {o o' : Order} (hids : (a.orders.map (·.id)).Nodup)
    (h : a.order? id = some o) (ho' : o' ∈ a.orders) (hid : o'.id = id) : o' = o :=
  List.inj_on_of_nodup_map hids ho' (mem_of_order? h).1 (hid.trans (mem_of_order? h).2.symm)

/-- What is done to an order matters only for this order. -/
theorem change_congr {f g : Order → Order} {o : Order} (hids : (a.orders.map (·.id)).Nodup)
    (h : a.order? id = some o) (hfg : f o = g o) : a.change id f = a.change id g := by
  rw [change, change]
  congr 1
  refine List.map_congr_left fun o' ho' => ?_
  split
  · next hid => rw [eq_of_order? hids h ho' hid, hfg]
  · rfl

theorem change_of_order?_eq_none {f : Order → Order} (h : a.order? id = none) :
    a.change id f = a := by
  rw [order?, List.find?_eq_none] at h
  have hmap : a.orders.map (fun o => if o.id = id then f o else o) = a.orders :=
    (List.map_congr_left fun o ho => if_neg (by simpa using h o ho)).trans (List.map_id' _)
  rw [change, hmap]

theorem change_read : a.change id Edit.read.apply = a := by
  have hmap : a.orders.map (fun o => if o.id = id then Edit.read.apply o else o) = a.orders :=
    (List.map_congr_left fun o _ => ite_self o).trans (List.map_id' _)
  rw [change, hmap]

theorem alone_newEntries (polls : Nat) (identifiers : List String) :
    alone (Procedure.newEntries polls identifiers) a =
      ((newEntries polls identifiers a.named).1,
        { a with named := (newEntries polls identifiers a.named).2 }) := by
  induction identifiers generalizing a with
  | nil => rfl
  | cons identifier rest ih => simp [Procedure.newEntries, newEntries, grant, ih]

theorem alone_visit {say : Order → Except IssuanceError α} {e : Edit} :
    alone (Procedure.visit id e say) a =
      (match a.order? id with
        | none => .error (.unknownOrder id)
        | some o => say o, a.change id e.apply) := by
  simp only [Procedure.visit, access_eq, Program.ask_bind, Program.done_bind, alone_ask, grant]
  cases a.order? id <;> rfl

theorem alone_challengeReady (url : String) (hids : (a.orders.map (·.id)).Nodup) :
    alone (Procedure.challengeReady id url) a = a.challengeReady id url := by
  simp only [Procedure.challengeReady, access_eq, Program.ask_bind, Program.done_bind, alone_ask,
    grant, alone_visit, challengeReady]
  change (({ a with readyCalls := a.readyCalls + 1 } : DevelopmentAuthority).orders.map
    (·.id)).Nodup at hids
  generalize ({ a with readyCalls := a.readyCalls + 1 } : DevelopmentAuthority) = a at hids ⊢
  cases ho : a.order? id with
  | none => simp [change_of_order?_eq_none ho]
  | some o =>
    by_cases hurl : o.entries.any fun e => e.url = url
    · simp only [hurl, if_true]
      rfl
    · have hsame : (Edit.announce url).apply o = Edit.read.apply o := by
        have hmap : o.entries.map (fun e => if e.url = url then { e with isReady := true } else e) =
            o.entries :=
          (List.map_congr_left fun e he => if_neg fun h => hurl
            (List.any_eq_true.mpr ⟨e, he, decide_eq_true h⟩)).trans (List.map_id' _)
        rw [Edit.apply, Edit.apply, hmap]
      simp only [hurl, if_false, Bool.false_eq_true]
      rw [change_congr hids ho hsame, change_read]

theorem alone_finalize (now : Instant) (csr : List UInt8) (hids : (a.orders.map (·.id)).Nodup) :
    alone (Procedure.finalize now id csr) a = a.finalize now id csr := by
  simp only [Procedure.finalize, access_eq, Program.ask_bind, Program.done_bind, alone_ask, grant,
    finalize]
  change (({ a with finalizeCalls := a.finalizeCalls + 1 } : DevelopmentAuthority).orders.map
    (·.id)).Nodup at hids
  generalize ({ a with finalizeCalls := a.finalizeCalls + 1 } : DevelopmentAuthority) = a at hids ⊢
  have hfind := order?_change a .refresh id id
  rw [if_pos rfl] at hfind
  change _ = match (a.change id Edit.refresh.apply).order? id with | none => _ | some o => _
  rw [hfind]
  cases ho : a.order? id with
  | none =>
    simp only [Option.map_none, alone_pure]
    rw [change_of_order?_eq_none ho, change_of_order?_eq_none ho]
  | some o =>
    simp only [Option.map_some]
    by_cases hready : o.refresh.status = .ready
    · have hclose (c : Option String) :
          (a.change id Edit.claim.apply).change id (Edit.close c).apply =
            (a.change id Edit.refresh.apply).change id (Edit.close c).apply := by
        simp only [change_change, Edit.close_claim]
        rfl
      have hclaimed : (a.change id Edit.claim.apply).order? id = some (Edit.claim.apply o) := by
        rw [order?_change, if_pos rfl, ho, Option.map_some]
      have hready' : (Edit.refresh.apply o).status = .ready := hready
      rw [if_neg (not_not.mpr hready)]
      simp only [hready', ne_eq, not_true, if_false, sign]
      cases CertificateRequest.ofBytes? csr with
      | none =>
        rw [alone_visit, hclose none, hclaimed]
        rfl
      | some r =>
        simp only [alone_ask, alone_visit]
        exact Prod.ext_iff.mpr ⟨congrArg (fun found : Option Order => (match found with
            | none => .error (.unknownOrder id)
            | some _ => .ok () : Except IssuanceError Unit)) hclaimed,
          congrArg (fun b : DevelopmentAuthority => { b with named := a.named + 1 })
            (hclose (some (a.certify now (a.named + 1) r)))⟩
    · have hclaim : Edit.claim.apply o = Edit.refresh.apply o := if_neg hready
      rw [if_pos hready, alone_pure, change_congr hids ho hclaim]
      exact (if_pos hready).symm

theorem alone_serve (now : Instant) (r : AuthorityRequest) (hids : (a.orders.map (·.id)).Nodup) :
    alone (Procedure.serve now r) a = a.serve now r := by
  cases r with
  | ensureAccount => rfl
  | newOrder identifiers =>
    by_cases h : identifiers = []
    · simp [Procedure.serve, Procedure.newOrder, serve, newOrder, h]
    · simp [Procedure.serve, Procedure.newOrder, serve, newOrder, h, alone_newEntries, grant, seen]
  | authorizations o =>
    have hfind := order?_change a (.look a.rejected) o.id o.id
    rw [if_pos rfl] at hfind
    simp only [Procedure.serve, Procedure.authorizations, access_eq, Program.ask_bind,
      Program.done_bind, alone_ask, grant, alone_visit, serve, authorizations]
    change _ = match (a.change o.id (Edit.look a.rejected).apply).order? o.id with
      | none => _ | some o => _
    rw [hfind]
    cases a.order? o.id <;> rfl
  | challengeReady o url => exact alone_challengeReady url hids
  | orderState o =>
    have hfind := order?_change a .refresh o.id o.id
    rw [if_pos rfl] at hfind
    simp only [Procedure.serve, Procedure.orderState, alone_visit, serve, orderState]
    change _ = match (a.change o.id Edit.refresh.apply).order? o.id with
      | none => _ | some o => _
    rw [hfind]
    cases a.order? o.id with
    | none => rfl
    | some order =>
      simp only [Option.map_some, Edit.apply, Order.entries_refresh]
      rfl
  | finalize o csr => exact alone_finalize now csr hids
  | certificate o =>
    simp only [Procedure.serve, alone_visit, serve, change_read]
    cases a.order? o.id <;> rfl
  | revoke der reason =>
    simp only [Procedure.serve, Procedure.revoke, serve, revoke]
    cases Certificate.ofBytes? der with
    | none => rfl
    | some c =>
      by_cases h : c.serialText ∈ a.revokedSerials <;> simp [grant, h]
  | release o => rfl

/-- A call that nobody interrupts is answered as the authority answers. -/
theorem alone_procedure (now : Instant) (r : AuthorityRequest)
    (hids : (a.orders.map (·.id)).Nodup) : alone (procedure now r) a = a.answer now r := by
  have hcall (b : DevelopmentAuthority) (hb : (b.orders.map (·.id)).Nodup) :
      alone (Procedure.unlessFailing r (Procedure.serve now r)) b =
        if r.isCall ∧ b.failingCalls ≠ 0 then
          (.error (.transient r.operation "injected service unavailable"),
            { b with failingCalls := b.failingCalls - 1 })
        else b.serve now r := by
    by_cases hr : r.isCall
    · by_cases hfail : b.failingCalls = 0
      · have hsame : ({ b with failingCalls := b.failingCalls - 1 } : DevelopmentAuthority) = b := by
          have hzero : b.failingCalls - 1 = b.failingCalls := by omega
          rw [hzero]
        simp only [Procedure.unlessFailing, hr, if_true, access_eq, Program.ask_bind,
          Program.done_bind, alone_ask, grant, hsame]
        simp [hfail, alone_serve now r hb]
      · simp [Procedure.unlessFailing, hr, hfail, grant]
    · simp [Procedure.unlessFailing, hr, alone_serve now r hb]
  rw [procedure, answer]
  by_cases hr : r = .ensureAccount
  · simp only [hr, if_true, access_eq, Program.ask_bind, Program.done_bind, alone_ask, grant]
    subst hr
    exact hcall _ hids
  · simp only [hr, if_false]
    exact hcall a hids

end Alone

/-! ### Calls side by side -/

/-- An access that was made, and what it gave. -/
abbrev Deed : Type := (x : Access) × x.Answer

/-- A call that was begun: what it did so far and what it has left to do. -/
structure Call where
  request : AuthorityRequest
  path : List Deed
  program : Dialogue request.Reply

/-- The call after its next access. -/
def Call.next (c : Call) (a : DevelopmentAuthority) : Call × DevelopmentAuthority :=
  match c.program with
  | .done _ => (c, a)
  | .ask x next =>
    ({ c with path := c.path ++ [⟨x, (a.grant x).1⟩], program := next (a.grant x).1 },
      (a.grant x).2)

/-- The authority and all calls that were begun. -/
structure Office where
  authority : DevelopmentAuthority
  calls : List Call := []

/-- What can happen. -/
inductive Move
  /-- The authority is told how to behave from now on. -/
  | tell (rejected : List String) (validationPolls failingCalls lifetime : Nat) (offersDns : Bool)
  /-- Somebody calls. -/
  | begin (now : Instant) (r : AuthorityRequest)
  /-- The call with that number makes its next access. -/
  | go (i : Nat)
deriving DecidableEq, Repr

namespace Office

/-- The office after a move. -/
def after (u : Office) : Move → Office
  | .tell rejected validationPolls failingCalls lifetime offersDns =>
    { u with
      authority :=
        { u.authority with rejected, validationPolls, failingCalls, lifetime, offersDns } }
  | .begin now r =>
    { u with calls := u.calls ++ [{ request := r, path := [], program := procedure now r }] }
  | .go i =>
    match u.calls[i]? with
    | none => u
    | some c => { authority := (c.next u.authority).2, calls := u.calls.set i (c.next u.authority).1 }

/-- A new authority with a key pair after some moves. -/
def run (key : KeyPair) (start : Instant) (moves : List Move) : Office :=
  moves.foldl after { authority := make key start }

variable {u : Office} {i : Nat} {r : AuthorityRequest} {path : List Deed}

theorem after_go {x : Access} {next : x.Answer → Dialogue r.Reply}
    (h : u.calls[i]? = some ⟨r, path, .ask x next⟩) :
    u.after (.go i) =
      { authority := (u.authority.grant x).2
        calls := u.calls.set i
          ⟨r, path ++ [⟨x, (u.authority.grant x).1⟩], next (u.authority.grant x).1⟩ } := by
  simp only [after, h]
  rfl

theorem set_self {calls : List Call} {c : Call} (h : calls[i]? = some c) :
    calls.set i c = calls := by
  obtain ⟨hi, rfl⟩ := List.getElem?_eq_some_iff.mp h
  exact List.set_getElem_self hi

theorem after_go_done {result : r.Reply} (h : u.calls[i]? = some ⟨r, path, .done result⟩) :
    u.after (.go i) = u := by
  obtain ⟨a, calls⟩ := u
  simp only [after, h, Call.next, mk.injEq, true_and]
  exact set_self h

/-- A call makes its next access or has ended. -/
theorem go_cases (u : Office) (i : Nat) :
    u.after (.go i) = u ∨ ∃ (r : AuthorityRequest) (path : List Deed) (x : Access)
      (next : x.Answer → Dialogue r.Reply), u.calls[i]? = some ⟨r, path, .ask x next⟩ := by
  cases h : u.calls[i]? with
  | none => exact .inl (by simp only [after, h])
  | some c =>
    obtain ⟨r, path, program⟩ := c
    cases program with
    | done result => exact .inl (after_go_done h)
    | ask x next => exact .inr ⟨r, path, x, next, rfl⟩

@[simp] theorem run_concat (key : KeyPair) (start : Instant) (moves : List Move) (m : Move) :
    run key start (moves ++ [m]) = (run key start moves).after m := by
  rw [run, List.foldl_append]
  rfl

/-- A call that is let go to its end without others. -/
theorem exists_go_alone (p : Dialogue r.Reply) (path : List Deed)
    (h : u.calls[i]? = some ⟨r, path, p⟩) :
    ∃ n path', (List.replicate n (.go i)).foldl after u =
      { authority := (alone p u.authority).2
        calls := u.calls.set i ⟨r, path', .done (alone p u.authority).1⟩ } := by
  induction p generalizing u path with
  | done result =>
    refine ⟨0, path, ?_⟩
    obtain ⟨a, calls⟩ := u
    simp only [List.replicate_zero, List.foldl_nil, alone_done, mk.injEq, true_and]
    exact (set_self h).symm
  | ask x next ih =>
    obtain ⟨hi, -⟩ := List.getElem?_eq_some_iff.mp h
    obtain ⟨n, path', hn⟩ := ih (u.authority.grant x).1 (u := u.after (.go i))
      (path ++ [⟨x, (u.authority.grant x).1⟩]) (by rw [after_go h]; simp [hi])
    refine ⟨n + 1, path', ?_⟩
    rw [List.replicate_succ, List.foldl_cons, hn, after_go h]
    simp

/-- What the authority answers to one call after the other is one of the interleavings. -/
theorem exists_run_alone (hids : (u.authority.orders.map (·.id)).Nodup) (now : Instant)
    (r : AuthorityRequest) :
    ∃ (moves : List Move) (path : List Deed), moves.foldl after u =
      { authority := (u.authority.answer now r).2
        calls := u.calls ++ [⟨r, path, .done (u.authority.answer now r).1⟩] } := by
  obtain ⟨n, path, hn⟩ := exists_go_alone (u := u.after (.begin now r)) (i := u.calls.length)
    (procedure now r) [] (by simp [after])
  refine ⟨.begin now r :: List.replicate n (.go u.calls.length), path, ?_⟩
  rw [List.foldl_cons, hn]
  simp only [after, alone_procedure now r hids]
  simp

end Office

end DevelopmentAuthority

end CertSteward
