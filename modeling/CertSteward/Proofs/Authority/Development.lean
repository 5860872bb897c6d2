import CertSteward.Authority.Development

/-!
# An order at the development authority

The development authority keeps an order from the call that opens it to the call that gives it up.
While none of its calls fails, what it answers follows from the order alone: its names are pending
for as many looks as the order was given once all their challenges are ready, and the next look
settles all of them.

## Main definitions

* `DevelopmentAuthority.Alike` — what the authority was told to do stays
* `DevelopmentAuthority.Tends` — an authority with one order and no failures to come
* `Order.waiting`, `Order.judged`, `Order.closed` — the order before it is settled, after it, and
  with its certificate

## Main results

* `answer_ensureAccount` — the call that takes all injected failures
* `newOrder_spec`, `Tends.authorizations_*`, `Tends.challengeReady`, `Tends.finalize`,
  `Tends.orderState`, `Tends.certificate`, `answer_release` — the answers in the life of an order
-/

namespace CertSteward

namespace DevelopmentAuthority

variable {a a' a'' : DevelopmentAuthority} {o : Order} {now : Instant}

/-- What the authority was told to do stays. -/
structure Alike (a a' : DevelopmentAuthority) : Prop where
  key : a'.key = a.key
  rootPem : a'.rootPem = a.rootPem
  rejected : a'.rejected = a.rejected
  validationPolls : a'.validationPolls = a.validationPolls
  lifetime : a'.lifetime = a.lifetime
  offersDns : a'.offersDns = a.offersDns

theorem Alike.trans (h : a.Alike a') (h' : a'.Alike a'') : a.Alike a'' :=
  ⟨h'.key.trans h.key, h'.rootPem.trans h.rootPem, h'.rejected.trans h.rejected,
    h'.validationPolls.trans h.validationPolls, h'.lifetime.trans h.lifetime,
    h'.offersDns.trans h.offersDns⟩

theorem Alike.report (h : a.Alike a') (e : Entry) : a'.report e = a.report e := by
  rw [DevelopmentAuthority.report, DevelopmentAuthority.report, keyAuthorization, keyAuthorization,
    h.offersDns, h.rootPem]

/-- An authority like `a` with one order and no failures to come. -/
structure Tends (a : DevelopmentAuthority) (o : Order) (a' : DevelopmentAuthority) : Prop extends
    a.Alike a' where
  orders : a'.orders = [o]
  failingCalls : a'.failingCalls = 0

/-! ### Entries and orders -/

namespace Entry

/-- A name that waits for some more looks, once its challenge is one of those that are ready. -/
def waiting (polls : Nat) (ready : List String) (e : Entry) : Entry :=
  { e with isReady := decide (e.url ∈ ready), pollsLeft := polls }

/-- A name that is settled. -/
def judged (rejected : List String) (e : Entry) : Entry :=
  if rejected.contains e.identifier then
    { e with isReady := true, pollsLeft := 0, status := .invalid
             error := some ("incorrect TXT record found at " ++ Domain.challengeName e.identifier) }
  else { e with isReady := true, pollsLeft := 0, status := .valid }

variable {polls : Nat} {ready rejected : List String} {e : Entry}

theorem look_waiting_nil : look rejected (e.waiting polls []) = e.waiting polls [] := by
  simp [look, waiting]

theorem look_waiting_succ (he : e.status = .pending) (hready : e.url ∈ ready) :
    look rejected (e.waiting (polls + 1) ready) = e.waiting polls ready := by
  simp [look, waiting, he, hready]

theorem look_waiting_zero (he : e.status = .pending) (hready : e.url ∈ ready) :
    look rejected (e.waiting 0 ready) = e.judged rejected := by
  simp [look, waiting, judged, he, hready]

theorem status_judged : (e.judged rejected).status =
    if rejected.contains e.identifier then .invalid else .valid := by
  rw [judged]
  split <;> rfl

theorem identifier_judged : (e.judged rejected).identifier = e.identifier := by
  rw [judged]
  split <;> rfl

end Entry

namespace Order

/-- The order after a look at all its names. -/
def looked (rejected : List String) (o : Order) : Order :=
  refresh { o with entries := o.entries.map (look rejected) }

@[simp]
theorem id_refresh (o : Order) : o.refresh.id = o.id := by
  rw [refresh]
  split
  · rfl
  · split
    · rfl
    · split <;> rfl

@[simp]
theorem entries_refresh (o : Order) : o.refresh.entries = o.entries := by
  rw [refresh]
  split
  · rfl
  · split
    · rfl
    · split <;> rfl

theorem id_looked (rejected : List String) (o : Order) : (o.looked rejected).id = o.id :=
  id_refresh _

/-- An order whose names wait. -/
def waiting (id : String) (entries : List Entry) (polls : Nat) (ready : List String) : Order where
  id := id
  entries := entries.map (Entry.waiting polls ready)

/-- An order whose names are settled. -/
def judged (id : String) (entries : List Entry) (rejected : List String) : Order :=
  refresh { id, entries := entries.map (Entry.judged rejected) }

/-- An order with its certificate. -/
def closed (id : String) (entries : List Entry) (rejected : List String) (chain : String) :
    Order where
  id := id
  entries := entries.map (Entry.judged rejected)
  status := .valid
  certificate := some chain

variable {id : String} {entries : List Entry} {polls : Nat} {ready rejected : List String}

@[simp]
theorem id_judged : (judged id entries rejected).id = id := id_refresh _

/-- The status of an order does not follow from its names as long as one is pending. -/
theorem refresh_of_pending (hstatus : o.status = .pending) (hne : o.entries ≠ [])
    (h : ∀ e ∈ o.entries, e.status = .pending) : o.refresh = o := by
  obtain ⟨e, he⟩ := List.exists_mem_of_ne_nil _ hne
  have hfailed : (o.entries.any fun e => e.status.isFailed) = false := by
    rw [List.any_eq_false]
    intro e he
    rw [h e he]
    exact Bool.false_ne_true
  have hvalid : (o.entries.all fun e => e.status = .valid) = false := by
    rw [List.all_eq_false]
    exact ⟨e, he, by rw [h e he]; decide⟩
  rw [refresh, isSettled, hstatus, hfailed, hvalid]
  rfl

/-- An order is ready when all its names are valid. -/
theorem refresh_of_valid (hsettled : o.isSettled = false)
    (h : ∀ e ∈ o.entries, e.status = .valid) : o.refresh = { o with status := .ready } := by
  have hfailed : (o.entries.any fun e => e.status.isFailed) = false := by
    rw [List.any_eq_false]
    intro e he
    rw [h e he]
    exact Bool.false_ne_true
  have hvalid : (o.entries.all fun e => e.status = .valid) = true := by
    rw [List.all_eq_true]
    exact fun e he => decide_eq_true (h e he)
  rw [refresh, hsettled, hfailed, hvalid]
  rfl

theorem refresh_waiting (hne : entries ≠ []) (h : ∀ e ∈ entries, e.status = .pending) :
    (waiting id entries polls ready).refresh = waiting id entries polls ready := by
  refine refresh_of_pending rfl (by simpa [waiting] using hne) fun e he => ?_
  obtain ⟨x, hx, rfl⟩ := List.mem_map.mp he
  exact h x hx

theorem looked_waiting_nil (id : String) (polls : Nat) (rejected : List String)
    (hne : entries ≠ []) (h : ∀ e ∈ entries, e.status = .pending) :
    (waiting id entries polls []).looked rejected = waiting id entries polls [] := by
  have hlook : (entries.map (Entry.waiting polls [])).map (look rejected) =
      entries.map (Entry.waiting polls []) := by
    rw [List.map_map]
    exact List.map_congr_left fun e _ => Entry.look_waiting_nil
  rw [looked, waiting, hlook]
  exact refresh_waiting hne h

theorem looked_waiting_succ (id : String) (polls : Nat) (rejected : List String)
    (hne : entries ≠ []) (h : ∀ e ∈ entries, e.status = .pending)
    (hready : ∀ e ∈ entries, e.url ∈ ready) :
    (waiting id entries (polls + 1) ready).looked rejected = waiting id entries polls ready := by
  have hlook : (entries.map (Entry.waiting (polls + 1) ready)).map (look rejected) =
      entries.map (Entry.waiting polls ready) := by
    rw [List.map_map]
    exact List.map_congr_left fun e he => Entry.look_waiting_succ (h e he) (hready e he)
  rw [looked, waiting, hlook]
  exact refresh_waiting hne h

theorem looked_waiting_zero (id : String) (rejected : List String)
    (h : ∀ e ∈ entries, e.status = .pending)
    (hready : ∀ e ∈ entries, e.url ∈ ready) :
    (waiting id entries 0 ready).looked rejected = judged id entries rejected := by
  have hlook : (entries.map (Entry.waiting 0 ready)).map (look rejected) =
      entries.map (Entry.judged rejected) := by
    rw [List.map_map]
    exact List.map_congr_left fun e he => Entry.look_waiting_zero (h e he) (hready e he)
  rw [looked, waiting, hlook]
  rfl

/-- An order is ready when none of its names is rejected. -/
theorem judged_of_accepted (h : ∀ e ∈ entries, rejected.contains e.identifier = false) :
    judged id entries rejected =
      { id, entries := entries.map (Entry.judged rejected), status := .ready } := by
  refine refresh_of_valid rfl fun e he => ?_
  obtain ⟨x, hx, rfl⟩ := List.mem_map.mp he
  rw [Entry.status_judged, h x hx]
  rfl

theorem refresh_judged (h : ∀ e ∈ entries, rejected.contains e.identifier = false) :
    (judged id entries rejected).refresh = judged id entries rejected := by
  rw [judged_of_accepted h]
  refine refresh_of_valid rfl fun e he => ?_
  obtain ⟨x, hx, rfl⟩ := List.mem_map.mp he
  rw [Entry.status_judged, h x hx]
  rfl

theorem refresh_closed {chain : String} :
    (closed id entries rejected chain).refresh = closed id entries rejected chain := rfl

end Order

/-! ### Answers -/

theorem order?_of_orders (h : a.orders = [o]) : a.order? o.id = some o := by
  simp [order?, h]

theorem change_of_orders (h : a.orders = [o]) (f : Order → Order) :
    a.change o.id f = { a with orders := [f o] } := by
  simp [change, h]

theorem answer_of_no_failures (h : a.failingCalls = 0) {r : AuthorityRequest}
    (hr : r ≠ .ensureAccount) : a.answer now r = a.serve now r := by
  rw [answer, if_neg hr]
  simp [h]

/-- An account is there unless a failure was injected. -/
theorem answer_ensureAccount (a : DevelopmentAuthority) (now : Instant) :
    a.answer now .ensureAccount =
      if a.failingCalls = 0 then (.ok (), { a with accountCalls := a.accountCalls + 1 })
      else (.error (.transient "ensure_account" "injected service unavailable"),
        { a with accountCalls := a.accountCalls + 1, failingCalls := a.failingCalls - 1 }) := by
  rw [answer, if_pos rfl]
  by_cases h : a.failingCalls = 0 <;>
    simp [h, AuthorityRequest.isCall, serve, AuthorityRequest.operation]

/-- The names of a new order are those that were asked for, in small letters, and none of their
challenges is ready. -/
theorem newEntries_spec (polls : Nat) (names : List String) (named : Nat) :
    (newEntries polls names named).1.map (·.identifier) = names.map Text.lower ∧
      (∀ e ∈ (newEntries polls names named).1, e.status = .pending) ∧
      (newEntries polls names named).1.map (Entry.waiting polls []) =
        (newEntries polls names named).1 := by
  induction names generalizing named with
  | nil => exact ⟨rfl, nofun, rfl⟩
  | cons n names ih =>
    obtain ⟨hidentifiers, hpending, hwaiting⟩ := ih (named + 2)
    refine ⟨congrArg (Text.lower n :: ·) hidentifiers, ?_, ?_⟩
    · rintro e (_ | ⟨_, he⟩)
      · rfl
      · exact hpending e he
    · change Entry.waiting polls [] _ :: _ = _
      rw [hwaiting]
      rfl

/-- An order is opened with all its names. -/
theorem newOrder_spec (now : Instant) (horders : a.orders = []) (hcalls : a.failingCalls = 0)
    {names : List String} (hne : names ≠ []) :
    ∃ (id : String) (entries : List Entry) (a' : DevelopmentAuthority),
      a.answer now (.newOrder names) = (.ok { id, identifiers := names }, a') ∧
      a.Tends (.waiting id entries a.validationPolls []) a' ∧
      entries.map (·.identifier) = names.map Text.lower ∧ ∀ e ∈ entries, e.status = .pending := by
  obtain ⟨hidentifiers, hpending, hwaiting⟩ := newEntries_spec a.validationPolls names a.named
  let entries := (newEntries a.validationPolls names a.named).1
  let named := (newEntries a.validationPolls names a.named).2
  let id := nameNumber "order" (named + 1)
  refine ⟨id, entries, { a with named := named + 1, orders := a.orders ++ [{ id, entries }] }, ?_,
    ⟨⟨rfl, rfl, rfl, rfl, rfl, rfl⟩, ?_, hcalls⟩, hidentifiers, hpending⟩
  · rw [answer_of_no_failures hcalls (r := .newOrder names) nofun, serve, newOrder, if_neg hne]
  · change a.orders ++ _ = _
    rw [horders, List.nil_append, Order.waiting, hwaiting]

namespace Tends

variable {id : String} {entries : List Entry} {polls : Nat} {ready names : List String}

/-- What is told of an order is what a look at its names finds. -/
theorem authorizations (h : a.Tends o a') (now : Instant) (names : List String) :
    a'.answer now (.authorizations ⟨o.id, names⟩) =
        (.ok ((o.looked a.rejected).entries.map a.report),
          { a' with orders := [o.looked a.rejected] }) ∧
      a.Tends (o.looked a.rejected) { a' with orders := [o.looked a.rejected] } := by
  refine ⟨?_, ⟨⟨h.key, h.rootPem, h.rejected, h.validationPolls, h.lifetime, h.offersDns⟩, rfl,
    h.failingCalls⟩⟩
  have hchange : (a'.change o.id fun o =>
      Order.refresh { o with entries := o.entries.map (look a'.rejected) }) =
      { a' with orders := [o.looked a.rejected] } := by
    rw [change_of_orders h.orders, h.rejected]
    rfl
  have horder : DevelopmentAuthority.order? { a' with orders := [o.looked a.rejected] } o.id =
      some (o.looked a.rejected) := by
    rw [← Order.id_looked a.rejected o]
    exact order?_of_orders rfl
  have hreport : (o.looked a.rejected).entries.map a'.report =
      (o.looked a.rejected).entries.map a.report :=
    List.map_congr_left fun e _ => h.toAlike.report e
  rw [answer_of_no_failures h.failingCalls (r := .authorizations _) nofun, serve, ← hreport]
  simp only [DevelopmentAuthority.authorizations, hchange, horder]
  rfl

/-- As long as no challenge is ready, all names stay pending. -/
theorem authorizations_nil (h : a.Tends (.waiting id entries polls []) a') (hne : entries ≠ [])
    (hpending : ∀ e ∈ entries, e.status = .pending) :
    ∃ a'', a'.answer now (.authorizations ⟨id, names⟩) =
        (.ok ((entries.map (Entry.waiting polls [])).map a.report), a'') ∧
      a.Tends (.waiting id entries polls []) a'' := by
  have hlooked := Order.looked_waiting_nil id polls a.rejected
    hne hpending
  have hanswer := h.authorizations now names
  rw [hlooked] at hanswer
  exact ⟨_, hanswer⟩

/-- Once all challenges are ready, names are pending for one look less. -/
theorem authorizations_succ (h : a.Tends (.waiting id entries (polls + 1) ready) a')
    (hne : entries ≠ []) (hpending : ∀ e ∈ entries, e.status = .pending)
    (hready : ∀ e ∈ entries, e.url ∈ ready) :
    ∃ a'', a'.answer now (.authorizations ⟨id, names⟩) =
        (.ok ((entries.map (Entry.waiting polls ready)).map a.report), a'') ∧
      a.Tends (.waiting id entries polls ready) a'' := by
  have hlooked := Order.looked_waiting_succ id polls a.rejected
    hne hpending hready
  have hanswer := h.authorizations now names
  rw [hlooked] at hanswer
  exact ⟨_, hanswer⟩

/-- When there are no such looks left, the next one settles all names. -/
theorem authorizations_zero (h : a.Tends (.waiting id entries 0 ready) a')
    (hpending : ∀ e ∈ entries, e.status = .pending) (hready : ∀ e ∈ entries, e.url ∈ ready) :
    ∃ a'', a'.answer now (.authorizations ⟨id, names⟩) =
        (.ok ((entries.map (Entry.judged a.rejected)).map a.report), a'') ∧
      a.Tends (.judged id entries a.rejected) a'' := by
  have hlooked := Order.looked_waiting_zero id a.rejected hpending hready
  have hanswer := h.authorizations now names
  rw [hlooked, Order.judged, Order.entries_refresh] at hanswer
  exact ⟨_, hanswer⟩

/-- A challenge of the order that is told to be ready is ready. -/
theorem challengeReady (h : a.Tends (.waiting id entries polls ready) a') {e : Entry}
    (he : e ∈ entries) :
    ∃ a'', a'.answer now (.challengeReady ⟨id, names⟩ e.url) = (.ok (), a'') ∧
      a.Tends (.waiting id entries polls (e.url :: ready)) a'' := by
  let told : DevelopmentAuthority := { a' with readyCalls := a'.readyCalls + 1 }
  have htold : told.orders = [.waiting id entries polls ready] := h.orders
  have hany : ((Order.waiting id entries polls ready).entries.any fun x => x.url = e.url) = true :=
    List.any_eq_true.mpr ⟨_, List.mem_map_of_mem he, decide_eq_true rfl⟩
  refine ⟨{ told with orders := [.waiting id entries polls (e.url :: ready)] }, ?_,
    ⟨⟨h.key, h.rootPem, h.rejected, h.validationPolls, h.lifetime, h.offersDns⟩, rfl,
      h.failingCalls⟩⟩
  have horder : told.order? id = some (.waiting id entries polls ready) := order?_of_orders htold
  have hchange : (told.change id fun o => { o with
      entries := o.entries.map fun x => if x.url = e.url then { x with isReady := true } else x }) =
      { told with orders := [.waiting id entries polls (e.url :: ready)] } := by
    refine (change_of_orders htold _).trans (congrArg (fun entries : List Entry =>
      ({ told with orders := [{ id, entries }] } : DevelopmentAuthority)) ?_)
    refine List.map_map.trans (List.map_congr_left fun x _ => ?_)
    by_cases hx : x.url = e.url <;> simp [Entry.waiting, hx]
  rw [answer_of_no_failures h.failingCalls (r := .challengeReady _ _) nofun, serve]
  simp only [DevelopmentAuthority.challengeReady]
  rw [horder]
  simp only [hany, if_true]
  exact congrArg (Prod.mk _) hchange

end Tends

/-! ### The certificate -/

/-- The certificate that is signed for a request. -/
def leafFor (a : DevelopmentAuthority) (now : Instant) (r : CertificateRequest) : Certificate where
  serial :=
    (Der.integerOfBytes ((sha256 (Utf8.encode (nameNumber "serial" (a.named + 1)))).take 16)).contents
  signature := a.key.signatureKind
  issuer := issuer
  subject := r.subject
  publicKey := r.publicKey
  notBefore := startOf now
  notAfter := endOf now a.lifetime
  extensions := if r.names = [] then [] else [.subjectNames r.names]

/-- The bytes of a certificate that is signed. -/
def leafDer (a : DevelopmentAuthority) (now : Instant) (r : CertificateRequest) : List UInt8 :=
  ((a.leafFor now r).toDer (a.key.sign
    ((sha256 (Utf8.encode (nameNumber "serial" (a.named + 1)))).take 16))).write

/-- What is handed out for a request: the certificate, and the root above it. -/
def chainFor (a : DevelopmentAuthority) (now : Instant) (r : CertificateRequest) : String :=
  Pem.ofCertificates [a.leafDer now r] ++ a.rootPem

theorem sign_of_ofBytes? {request : List UInt8} {r : CertificateRequest}
    (h : CertificateRequest.ofBytes? request = some r) :
    a.sign now request = (.ok (a.chainFor now r), { a with named := a.named + 1 }) := by
  rw [sign, h]
  rfl

namespace Tends

variable {id chain : String} {entries : List Entry} {names : List String}

/-- The request for an order that is ready is signed. -/
theorem finalize (h : a.Tends (.judged id entries a.rejected) a') (now : Instant)
    (names : List String) (haccepted : ∀ e ∈ entries, a.rejected.contains e.identifier = false)
    {request : List UInt8} {r : CertificateRequest} (hr : CertificateRequest.ofBytes? request = some r) :
    ∃ a'', a'.answer now (.finalize ⟨id, names⟩ request) = (.ok (), a'') ∧
      a.Tends (.closed id entries a.rejected (a'.chainFor now r)) a'' := by
  let asked : DevelopmentAuthority := { a' with finalizeCalls := a'.finalizeCalls + 1 }
  let o := Order.judged id entries a.rejected
  have hasked : asked.orders = [o] := h.orders
  have hid : o.id = id := Order.id_judged
  have hchange : asked.change id Order.refresh = asked := by
    rw [← hid, change_of_orders hasked, Order.refresh_judged haccepted, ← hasked]
  have hstatus : ¬ o.status ≠ .ready := by
    rw [show o = _ from Order.judged_of_accepted haccepted]
    simp
  let signed : DevelopmentAuthority := { asked with named := asked.named + 1 }
  refine ⟨{ signed with orders := [.closed id entries a.rejected (a'.chainFor now r)] }, ?_,
    ⟨⟨h.key, h.rootPem, h.rejected, h.validationPolls, h.lifetime, h.offersDns⟩, rfl,
      h.failingCalls⟩⟩
  have horder : asked.order? id = some o := hid ▸ order?_of_orders hasked
  have hsigned : (signed.change id fun o =>
      { o with status := .valid, certificate := some (a'.chainFor now r) }) =
      { signed with orders := [.closed id entries a.rejected (a'.chainFor now r)] } := by
    have horders := change_of_orders (a := signed) hasked fun o =>
      { o with status := .valid, certificate := some (a'.chainFor now r) }
    rw [hid, show o.entries = _ from Order.entries_refresh _] at horders
    exact horders
  rw [answer_of_no_failures h.failingCalls (r := .finalize _ _) nofun, serve]
  simp only [DevelopmentAuthority.finalize]
  rw [hchange, horder]
  simp only [hstatus, if_false, sign_of_ofBytes? hr]
  exact congrArg (Prod.mk _) hsigned

/-- The order is valid then. -/
theorem orderState (h : a.Tends (.closed id entries a.rejected chain) a') :
    a'.answer now (.orderState ⟨id, names⟩) = (.ok { status := .valid, error := none }, a') := by
  have hchange : a'.change id Order.refresh = a' := by
    refine (change_of_orders h.orders Order.refresh).trans ?_
    rw [Order.refresh_closed, ← h.orders]
  have horder : a'.order? id = some (.closed id entries a.rejected chain) :=
    order?_of_orders h.orders
  rw [answer_of_no_failures h.failingCalls (r := .orderState _) nofun, serve]
  simp only [DevelopmentAuthority.orderState]
  rw [hchange, horder]
  rfl

/-- An order that is tended has its certificate. -/
theorem certificate (h : a.Tends (.closed id entries a.rejected chain) a') :
    a'.answer now (.certificate ⟨id, names⟩) = (.ok (some chain), a') := by
  have horder : a'.order? id = some (.closed id entries a.rejected chain) :=
    order?_of_orders h.orders
  rw [answer_of_no_failures h.failingCalls (r := .certificate _) nofun, serve]
  rw [horder]
  rfl

end Tends

/-- An order that is given up is gone. -/
theorem answer_release (now : Instant) (order : OrderHandle) (h : ∀ x ∈ a.orders, x.id = order.id) :
    a.answer now (.release order) = (.ok (), { a with orders := [] }) := by
  have hfilter : a.orders.filter (fun x => x.id ≠ order.id) = [] := by
    rw [List.filter_eq_nil_iff]
    exact fun x hx => by simp [h x hx]
  rw [answer, if_neg fun h => Bool.false_ne_true h.1]
  change (Except.ok (), { a with orders := a.orders.filter fun x => x.id ≠ order.id }) = _
  rw [hfilter]

end DevelopmentAuthority

end CertSteward
