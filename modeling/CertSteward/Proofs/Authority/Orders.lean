import CertSteward.Proofs.Authority.Clients

/-!
# What becomes of an order at the development authority

A call makes only accesses that suit what was asked, and nothing after the one that brings its
answer. So from an access in a path one learns which call made it and with what it ended. And what
is so of an order can be said by what was done so far: who is ready was announced, who is valid was
found acceptable, and a certificate was put there by whoever closed the order. Every edit keeps
this, provided that only an order that is being processed is closed.

## Main definitions

* `Suits`, `Ended`, `Keeps` — accesses that suit a call, how it ends, and programs that keep to both
* `Entry.Fits`, `Order.Fits` — what is so of an order, given what was done so far
* `Order.IsHonest` — orders whose status says it if a name failed

## Main results

* `keeps_procedure` — every call keeps to what suits it
* `Order.Fits.apply` — every edit keeps what is so of an order
* `apply_of_isSettled` — an order that is settled is changed by closing it alone
-/

namespace CertSteward

/-- The order that a request is about. -/
def AuthorityRequest.about? : AuthorityRequest → Option String
  | authorizations o | orderState o | certificate o | release o | challengeReady o _
  | finalize o _ => some o.id
  | ensureAccount | newOrder _ | revoke .. => none

namespace DevelopmentAuthority

/-! ### What a call may do -/

namespace Access

/-- Whether a call does nothing after it. -/
def isLast : Access → Bool
  | visit _ .claim => false
  | enter _ | visit .. | leave _ => true
  | fail | count _ | settings | name | revoke _ => false

/-- Whether it leaves the orders alone. -/
def isPlain : Access → Bool
  | fail | count _ | settings | name => true
  | enter _ | visit .. | leave _ | revoke _ => false

theorem not_isLast_of_isPlain {x : Access} (h : x.isPlain) : ¬ x.isLast := by
  cases x <;> simp_all [isPlain, isLast]

end Access

/-- A name whose challenge nobody has looked at yet. -/
def Entry.IsNew (e : Entry) : Prop := e.status = .pending ∧ e.isReady = false

/-- An order that was just opened. -/
structure Order.IsNew (o : Order) : Prop where
  status : o.status = .pending
  certificate : o.certificate = none
  entries : ∀ e ∈ o.entries, e.IsNew

/-- Whether an access suits a call that did this so far. -/
def Suits (r : AuthorityRequest) (path : List Deed) : Access → Prop
  | .enter o => r.about? = none ∧ o.IsNew ∧ ∃ n, o.id = nameNumber "order" n ∧ ⟨.name, n⟩ ∈ path
  | .visit id (.look rejected) =>
    (∃ o, r = .authorizations o ∧ o.id = id) ∧
      ∃ a : DevelopmentAuthority, ⟨.settings, a⟩ ∈ path ∧ a.rejected = rejected
  | .visit id (.announce url) => ∃ o, r = .challengeReady o url ∧ o.id = id
  | .visit id .claim => ∃ o csr, r = .finalize o csr ∧ o.id = id
  | .visit id (.close _) =>
    (∃ o csr, r = .finalize o csr ∧ o.id = id) ∧
      ∃ o : Order, ⟨.visit id .claim, some o⟩ ∈ path ∧ o.refresh.status = .ready
  | .visit id .read | .visit id .refresh | .leave id => r.about? = some id
  | .fail | .count _ | .settings | .name | .revoke _ => True

theorem Suits.mono {r : AuthorityRequest} {path path' : List Deed} {x : Access}
    (h : Suits r path x) (hpath : path ⊆ path') : Suits r path' x := by
  cases x with
  | enter o =>
    obtain ⟨hr, ho, n, hn, hmem⟩ := h
    exact ⟨hr, ho, n, hn, hpath hmem⟩
  | visit id e =>
    cases e with
    | look rejected =>
      obtain ⟨hr, a, hmem, ha⟩ := h
      exact ⟨hr, a, hpath hmem, ha⟩
    | close c =>
      obtain ⟨hr, o, hmem, ho⟩ := h
      exact ⟨hr, o, hpath hmem, ho⟩
    | _ => exact h
  | _ => exact h

/-- An access to an order is made by a call about it. -/
theorem Suits.about {r : AuthorityRequest} {path : List Deed} {id : String} {e : Edit}
    (h : Suits r path (.visit id e)) : r.about? = some id := by
  cases e with
  | read | refresh => exact h
  | look rejected =>
    obtain ⟨⟨o, rfl, rfl⟩, -⟩ := h
    rfl
  | announce url =>
    obtain ⟨o, rfl, rfl⟩ := h
    rfl
  | claim =>
    obtain ⟨o, csr, rfl, rfl⟩ := h
    rfl
  | close c =>
    obtain ⟨⟨o, csr, rfl, rfl⟩, -⟩ := h
    rfl

/-- What a call ends with, by what it did. -/
def Ended : (r : AuthorityRequest) → List Deed → r.Reply → Prop
  | .challengeReady h url, path, result =>
    ∀ o : Order, ⟨.visit h.id (.announce url), some o⟩ ∈ path → (∃ e ∈ o.entries, e.url = url) →
      result = .ok ()
  | .finalize h _, path, result =>
    (result = .ok () ↔
      ∃ (pem : String) (o : Order), ⟨.visit h.id (.close (some pem)), some o⟩ ∈ path) ∧
    ∀ found : Option Order, ⟨.visit h.id (.close none), found⟩ ∈ path →
      result = .error (if found.isSome then .rejected "finalize" "badCSR: malformed request"
        else .unknownOrder h.id)
  | _, _, _ => True

/-- A program that only makes accesses that suit the call, and ends as is said. -/
def Keeps (r : AuthorityRequest) {α : Type} (Q : List Deed → α → Prop) :
    List Deed → Dialogue α → Prop
  | path, .done result => Q path result
  | path, .ask x next => (∀ d ∈ path, ¬ d.1.isLast) ∧ Suits r path x ∧
      ∀ answer, Keeps r Q (path ++ [⟨x, answer⟩]) (next answer)

section Keeps

variable {r : AuthorityRequest} {α β : Type} {Q : List Deed → α → Prop} {path : List Deed}

theorem Keeps.mono {R : List Deed → α → Prop} {p : Dialogue α} (h : Keeps r Q path p)
    (hQR : ∀ path a, Q path a → R path a) : Keeps r R path p := by
  induction p generalizing path with
  | done a => exact hQR _ _ h
  | ask x next ih => exact ⟨h.1, h.2.1, fun answer => ih answer (h.2.2 answer)⟩

theorem keeps_bind {p : Dialogue β} {f : β → Dialogue α} :
    Keeps r Q path (p >>= f) ↔ Keeps r (fun path b => Keeps r Q path (f b)) path p := by
  induction p generalizing path with
  | done b => exact Iff.rfl
  | ask x next ih => exact and_congr_right' (and_congr_right' (forall_congr' fun answer => ih answer))

/-- Only plain accesses so far. -/
def Plain (path : List Deed) : Prop := ∀ d ∈ path, d.1.isPlain

theorem Plain.concat {x : Access} (h : Plain path) (hx : x.isPlain) (answer : x.Answer) :
    Plain (path ++ [⟨x, answer⟩]) := by
  intro d hd
  rcases List.mem_append.mp hd with hd | hd
  · exact h d hd
  · rw [List.mem_singleton.mp hd]
    exact hx

theorem Plain.not_visit (h : Plain path) (id : String) (e : Edit) (found : Option Order) :
    (⟨.visit id e, found⟩ : Deed) ∉ path := fun hmem => by cases h _ hmem

theorem Plain.not_isLast (h : Plain path) : ∀ d ∈ path, ¬ d.1.isLast :=
  fun d hd => Access.not_isLast_of_isPlain (h d hd)

/-- A call that failed before it came to an order. -/
theorem Plain.ended_error (h : Plain path) (e : IssuanceError) : Ended r path (.error e) := by
  cases r with
  | challengeReady o url => exact fun order hmem => absurd hmem (h.not_visit _ _ _)
  | finalize o csr => exact ⟨by simp [h.not_visit], by simp [h.not_visit]⟩
  | _ => trivial

/-- A plain access keeps to what suits if what follows it does. -/
theorem Plain.keeps_access {x : Access} {f : x.Answer → Dialogue α} (h : Plain path)
    (hx : x.isPlain)
    (hnext : ∀ {path} answer, Plain path → ⟨x, answer⟩ ∈ path → Keeps r Q path (f answer)) :
    Keeps r Q path (access x >>= f) := by
  refine ⟨h.not_isLast, ?_, fun answer => hnext answer (h.concat hx answer) (by simp)⟩
  cases x with
  | fail | count | settings | name => trivial
  | enter | visit | leave | revoke => cases hx

theorem keeps_visit {id : String} {e : Edit} {β : Type} {say : Order → Except IssuanceError β}
    {Q : List Deed → Except IssuanceError β → Prop} (hlast : ∀ d ∈ path, ¬ d.1.isLast)
    (hsuits : Suits r path (.visit id e))
    (hnone : Q (path ++ [⟨.visit id e, (none : Option Order)⟩]) (.error (.unknownOrder id)))
    (hsome : ∀ o : Order, Q (path ++ [⟨.visit id e, some o⟩]) (say o)) :
    Keeps r Q path (Procedure.visit id e say) := by
  refine ⟨hlast, hsuits, fun found => ?_⟩
  cases found with
  | none => exact hnone
  | some o => exact hsome o

theorem keeps_newEntries {polls : Nat} {identifiers : List String} (h : Plain path) :
    Keeps r (fun path entries => Plain path ∧ ∀ e ∈ entries, e.IsNew) path
      (Procedure.newEntries polls identifiers) := by
  induction identifiers generalizing path with
  | nil => exact ⟨h, by simp⟩
  | cons identifier rest ih =>
    refine h.keeps_access rfl fun token h _ => h.keeps_access rfl fun url h _ => ?_
    refine keeps_bind.mpr ((ih h).mono fun path entries ⟨h, hnew⟩ => ⟨h, ?_⟩)
    exact List.forall_mem_cons.mpr ⟨⟨rfl, rfl⟩, hnew⟩

theorem keeps_newOrder {identifiers : List String} (h : Plain path) :
    Keeps (.newOrder identifiers) (fun _ _ => True) path (Procedure.newOrder identifiers) := by
  rw [Procedure.newOrder]
  split
  · trivial
  · refine h.keeps_access rfl fun a h _ => keeps_bind.mpr ((keeps_newEntries h).mono ?_)
    rintro path entries ⟨h, hnew⟩
    refine h.keeps_access rfl fun n h hn => ⟨h.not_isLast, ?_, fun _ => trivial⟩
    exact ⟨rfl, ⟨rfl, rfl, hnew⟩, n, rfl, hn⟩

theorem keeps_challengeReady {o : OrderHandle} {url : String} (h : Plain path) :
    Keeps (.challengeReady o url) (Ended (.challengeReady o url)) path
      (Procedure.challengeReady o.id url) := by
  refine h.keeps_access rfl fun _ h _ => keeps_visit h.not_isLast ⟨o, rfl, rfl⟩ ?_ ?_
  · intro order hmem
    simp [h.not_visit] at hmem
  · intro order found hmem ⟨e, he, hurl⟩
    obtain rfl : found = order := by simpa [h.not_visit] using hmem
    exact if_pos (List.any_eq_true.mpr ⟨e, he, decide_eq_true hurl⟩)

theorem keeps_finalize {now : Instant} {o : OrderHandle} {csr : List UInt8} (h : Plain path) :
    Keeps (.finalize o csr) (Ended (.finalize o csr)) path (Procedure.finalize now o.id csr) := by
  refine h.keeps_access rfl fun _ h _ => h.keeps_access rfl fun a h _ => ?_
  rename_i path _
  have hclose := fun k => h.not_visit o.id (.close k)
  refine ⟨h.not_isLast, ⟨o, csr, rfl, rfl⟩, fun found => ?_⟩
  cases found with
  | none => exact ⟨by simp [hclose], by simp [hclose]⟩
  | some order =>
    change Keeps _ _ _ (if _ then _ else _)
    split
    · exact ⟨by simp [hclose], by simp [hclose]⟩
    · next hready =>
      have hlast : ∀ d ∈ path ++ [⟨.visit o.id .claim, some order⟩], ¬ d.1.isLast := by
        simp only [List.mem_append, List.mem_singleton]
        rintro d (hd | rfl)
        · exact h.not_isLast d hd
        · nofun
      split
      · refine keeps_visit hlast ⟨⟨o, csr, rfl, rfl⟩, order, by simp, not_not.mp hready⟩ ?_ ?_
        · exact ⟨by simp [hclose], by simp [hclose]⟩
        · exact fun found => ⟨by simp [hclose], by simp [hclose]⟩
      · refine ⟨hlast, trivial, fun n => keeps_visit ?_ ?_ ?_ ?_⟩
        · simp only [List.mem_append, List.mem_singleton] at hlast ⊢
          rintro d ((hd | rfl) | rfl)
          · exact h.not_isLast d hd
          · nofun
          · nofun
        · exact ⟨⟨o, csr, rfl, rfl⟩, order, by simp, not_not.mp hready⟩
        · exact ⟨by simp [hclose], by simp [hclose]⟩
        · exact fun found => ⟨by simp [hclose], by simp [hclose]⟩

theorem keeps_serve {now : Instant} (h : Plain path) :
    Keeps r (Ended r) path (Procedure.serve now r) := by
  cases r with
  | ensureAccount => trivial
  | newOrder identifiers => exact keeps_newOrder h
  | authorizations o =>
    refine h.keeps_access rfl fun a h ha => keeps_visit h.not_isLast ?_ trivial fun _ => trivial
    exact ⟨⟨o, rfl, rfl⟩, a, ha, rfl⟩
  | challengeReady o url => exact keeps_challengeReady h
  | orderState o => exact keeps_visit h.not_isLast rfl trivial fun _ => trivial
  | finalize o csr => exact keeps_finalize h
  | certificate o => exact keeps_visit h.not_isLast rfl trivial fun _ => trivial
  | revoke der reason =>
    change Keeps _ _ path (Procedure.revoke der)
    rw [Procedure.revoke]
    split
    · trivial
    · refine ⟨h.not_isLast, trivial, fun revoked => ?_⟩
      cases revoked <;> trivial
  | release o => exact ⟨h.not_isLast, rfl, fun _ => trivial⟩

/-- A call only makes accesses that suit it. -/
theorem keeps_procedure (now : Instant) (r : AuthorityRequest) :
    Keeps r (Ended r) [] (procedure now r) := by
  have hcall {path : List Deed} (h : Plain path) :
      Keeps r (Ended r) path (Procedure.unlessFailing r (Procedure.serve now r)) := by
    rw [Procedure.unlessFailing]
    split
    · refine h.keeps_access rfl fun failing h _ => ?_
      split
      · exact h.ended_error _
      · exact keeps_serve h
    · exact keeps_serve h
  rw [procedure]
  have hstart : Plain [] := fun d hd => absurd hd List.not_mem_nil
  split
  · exact hstart.keeps_access rfl fun _ h _ => hcall h
  · exact hcall hstart

end Keeps

/-! ### What an order is like -/

theorem not_isFailed_of_valid {s : AuthorizationStatus} (h : s = .valid) : ¬ s.isFailed := by
  rw [h]
  nofun

/-- A look leaves a name as it is, or it was ready and pending and may have been settled. -/
theorem look_cases (rejected : List String) (e : Entry) :
    look rejected e = e ∨ e.isReady ∧ e.status = .pending ∧
      ((∃ n, look rejected e = { e with pollsLeft := n }) ∨
        (∃ error, look rejected e = { e with status := .invalid, error }) ∨
        e.identifier ∉ rejected ∧ look rejected e = { e with status := .valid }) := by
  rw [look]
  split
  · exact .inl rfl
  · next h =>
    obtain ⟨hready, hpending⟩ : e.isReady = true ∧ e.status = .pending := by simpa using h
    refine .inr ⟨hready, hpending, ?_⟩
    split
    · exact .inl ⟨_, rfl⟩
    · split
      · exact .inr (.inl ⟨_, rfl⟩)
      · next hrejected => exact .inr (.inr ⟨by simpa using hrejected, rfl⟩)

/-- Refreshing leaves an order as it is, or makes it ready or invalid. -/
theorem Order.refresh_cases (o : Order) :
    o.isSettled ∧ o.refresh = o ∨ ¬ o.isSettled ∧
      ((∃ e ∈ o.entries, e.status.isFailed) ∧ o.refresh = { o with status := .invalid } ∨
        (∀ e ∈ o.entries, ¬ e.status.isFailed) ∧
          ((∀ e ∈ o.entries, e.status = .valid) ∧ o.refresh = { o with status := .ready } ∨
            o.refresh = o)) := by
  rw [refresh]
  split
  · next h => exact .inl ⟨h, rfl⟩
  · next h =>
    refine .inr ⟨h, ?_⟩
    split
    · next hfailed => exact .inl ⟨by simpa using hfailed, rfl⟩
    · next hfailed =>
      refine .inr ⟨by simpa using hfailed, ?_⟩
      split
      · next hvalid => exact .inl ⟨by simpa using hvalid, rfl⟩
      · exact .inr rfl

/-- What is so of a name of an order, given what was done so far: whoever is ready was announced,
and whoever is valid was ready and was settled by a look that did not reject it. -/
structure Entry.Fits (did : Deed → Prop) (id : String) (e : Entry) : Prop where
  announced : e.isReady → ∃ found : Order, did ⟨.visit id (.announce e.url), some found⟩ ∧
    ∃ e' ∈ found.entries, e'.url = e.url
  settled : e.status = .valid → e.isReady ∧ ∃ (rejected : List String) (found : Order),
    did ⟨.visit id (.look rejected), some found⟩ ∧
      ∃ e' ∈ found.entries, e'.status = .pending ∧ look rejected e' = e ∧ e.identifier ∉ rejected

/-- What is so of an order, given what was done so far. -/
structure Order.Fits (did : Deed → Prop) (o : Order) : Prop where
  certificate : o.certificate.isSome ↔ o.status = .valid
  valid : o.status = .ready ∨ o.isSettled → ∀ e ∈ o.entries, e.status = .valid
  invalid : o.status = .invalid → (∃ e ∈ o.entries, e.status.isFailed) ∨
    (∀ e ∈ o.entries, e.status = .valid) ∧
      ∃ found : Order, did ⟨.visit o.id (.close none), some found⟩
  entries : ∀ e ∈ o.entries, e.Fits did o.id
  closed : ∀ {pem}, o.certificate = some pem →
    ∃ found : Order, did ⟨.visit o.id (.close (some pem)), some found⟩

/-- The status of an order says it if a name failed. -/
def Order.IsHonest (o : Order) : Prop :=
  (∃ e ∈ o.entries, e.status.isFailed) → o.status = .invalid

section Fits

variable {did did' : Deed → Prop} {id : String} {o : Order} {e : Entry}

theorem Entry.Fits.mono (h : e.Fits did id) (hdid : ∀ d, did d → did' d) : e.Fits did' id where
  announced hready := by
    obtain ⟨found, hfound, he⟩ := h.announced hready
    exact ⟨found, hdid _ hfound, he⟩
  settled hvalid := by
    obtain ⟨hready, rejected, found, hfound, he⟩ := h.settled hvalid
    exact ⟨hready, rejected, found, hdid _ hfound, he⟩

theorem Order.Fits.mono (h : o.Fits did) (hdid : ∀ d, did d → did' d) : o.Fits did' where
  certificate := h.certificate
  valid := h.valid
  invalid hinvalid := (h.invalid hinvalid).imp_right fun ⟨hvalid, found, hfound⟩ =>
    ⟨hvalid, found, hdid _ hfound⟩
  entries e he := (h.entries e he).mono hdid
  closed hpem := by
    obtain ⟨found, hfound⟩ := h.closed hpem
    exact ⟨found, hdid _ hfound⟩

theorem Order.IsNew.fits (h : o.IsNew) : o.Fits did where
  certificate := by simp [h.status, h.certificate]
  valid := by simp [h.status, isSettled]
  invalid := by simp [h.status]
  entries e he := ⟨by simp [(h.entries e he).2], by simp [(h.entries e he).1]⟩
  closed := by simp [h.certificate]

theorem Order.IsNew.isHonest (h : o.IsNew) : o.IsHonest := by
  rintro ⟨e, he, hfailed⟩
  rw [(h.entries e he).1] at hfailed
  cases hfailed

/-- Another status fits as well. -/
theorem Order.Fits.withStatus {status : OrderStatus} (h : o.Fits did)
    (hstatus : status ≠ .valid) (hwas : o.status ≠ .valid)
    (hvalid : status = .ready ∨ status = .processing → ∀ e ∈ o.entries, e.status = .valid)
    (hinvalid : status = .invalid → (∃ e ∈ o.entries, e.status.isFailed) ∨
      (∀ e ∈ o.entries, e.status = .valid) ∧
        ∃ found : Order, did ⟨.visit o.id (.close none), some found⟩) :
    ({ o with status } : Order).Fits did where
  certificate := by simp [h.certificate, hstatus, hwas]
  valid hready := hvalid (by simpa [isSettled, hstatus] using hready)
  invalid := hinvalid
  entries := h.entries
  closed := h.closed

theorem status_ne_valid (h : ¬ o.isSettled) : o.status ≠ .valid := fun hvalid =>
  h (decide_eq_true (.inl hvalid))

theorem Order.Fits.refresh (h : o.Fits did) : o.refresh.Fits did ∧ o.refresh.IsHonest := by
  rcases o.refresh_cases with ⟨hsettled, heq⟩ | ⟨hsettled, ⟨hfailed, heq⟩ |
    ⟨hfailed, ⟨hvalid, heq⟩ | heq⟩⟩
  · rw [heq]
    refine ⟨h, fun ⟨e, he, hfailed⟩ => ?_⟩
    exact absurd hfailed (not_isFailed_of_valid (h.valid (.inr hsettled) e he))
  · rw [heq]
    exact ⟨h.withStatus nofun (status_ne_valid hsettled) nofun fun _ => .inl hfailed, fun _ => rfl⟩
  · rw [heq]
    exact ⟨h.withStatus nofun (status_ne_valid hsettled) (fun _ => hvalid) nofun,
      fun ⟨e, he, hbad⟩ => absurd hbad (hfailed e he)⟩
  · rw [heq]
    exact ⟨h, fun ⟨e, he, hbad⟩ => absurd hbad (hfailed e he)⟩

/-- The names may change if the valid and the failed ones stay and each new one fits. -/
theorem Order.Fits.map (h : o.Fits did) {f : Entry → Entry}
    (hvalid : ∀ e, e.status = .valid → (f e).status = .valid)
    (hfailed : ∀ e, e.status.isFailed → (f e).status.isFailed)
    (hfits : ∀ e ∈ o.entries, (f e).Fits did o.id) :
    ({ o with entries := o.entries.map f } : Order).Fits did where
  certificate := h.certificate
  valid hready := List.forall_mem_map.mpr fun e he => hvalid e (h.valid hready e he)
  invalid hinvalid := by
    refine (h.invalid hinvalid).imp (fun ⟨e, he, hbad⟩ => ?_) fun ⟨hall, hspoiled⟩ => ?_
    · exact ⟨f e, List.mem_map_of_mem he, hfailed e hbad⟩
    · exact ⟨List.forall_mem_map.mpr fun e he => hvalid e (hall e he), hspoiled⟩
  entries := List.forall_mem_map.mpr hfits
  closed := h.closed

/-- A look at a name of an order. -/
theorem Entry.Fits.look {rejected : List String} (h : e.Fits did id) (he : e ∈ o.entries)
    (hdid : did ⟨.visit id (.look rejected), some o⟩) :
    (DevelopmentAuthority.look rejected e).Fits did id := by
  rcases look_cases rejected e with heq | ⟨hready, hpending, ⟨n, heq⟩ | ⟨error, heq⟩ |
    ⟨hname, heq⟩⟩
  · rw [heq]
    exact h
  · rw [heq]
    exact ⟨h.announced, fun hvalid => by simp [hpending] at hvalid⟩
  · rw [heq]
    exact ⟨h.announced, nofun⟩
  · rw [heq]
    exact ⟨h.announced, fun _ => ⟨hready, rejected, o, hdid, e, he, hpending, heq, hname⟩⟩

/-- Who is not pending stays as it is. -/
theorem look_of_ne {rejected : List String} (h : e.status ≠ .pending) : look rejected e = e := by
  rcases look_cases rejected e with heq | ⟨-, hpending, -⟩
  · exact heq
  · exact absurd hpending h

theorem look_of_isFailed {rejected : List String} (h : e.status.isFailed) : look rejected e = e :=
  look_of_ne fun hpending => by
    rw [hpending] at h
    cases h

/-- A challenge of an order is announced. -/
theorem Entry.Fits.announce {url : String} (h : e.Fits did id) (he : e ∈ o.entries)
    (hdid : did ⟨.visit id (.announce url), some o⟩) :
    (if e.url = url then { e with isReady := true } else e : Entry).Fits did id := by
  split
  · next hurl =>
    refine ⟨fun _ => ⟨o, hurl ▸ hdid, e, he, rfl⟩, fun hvalid => ?_⟩
    have hready := (h.settled hvalid).1
    obtain ⟨rejected, found, hfound, e', he', hpending, heq, hname⟩ := (h.settled hvalid).2
    have hsame : { e with isReady := true } = e := by rw [← hready]
    exact ⟨rfl, rejected, found, hfound, e', he', hpending, heq.trans hsame.symm, hname⟩
  · exact h

theorem Order.isHonest_of_valid (h : ∀ e ∈ o.entries, e.status = .valid) : o.IsHonest := by
  rintro ⟨e, he, hfailed⟩
  exact absurd hfailed (not_isFailed_of_valid (h e he))

theorem Order.Fits.announce {url : String} (h : o.Fits did) (hhonest : o.IsHonest)
    (hdid : did ⟨.visit o.id (.announce url), some o⟩) :
    ((Edit.announce url).apply o).Fits did ∧ ((Edit.announce url).apply o).IsHonest := by
  have hstatus (e : Entry) :
      (if e.url = url then { e with isReady := true } else e : Entry).status = e.status := by
    split <;> rfl
  refine ⟨h.map (fun e hvalid => ?_) (fun e hfailed => ?_) fun e he => ?_, ?_⟩
  · rwa [hstatus]
  · rwa [hstatus]
  · exact (h.entries e he).announce he hdid
  · rintro ⟨e', he', hfailed⟩
    obtain ⟨e, he, rfl⟩ := List.mem_map.mp he'
    exact hhonest ⟨e, he, by rwa [hstatus] at hfailed⟩

theorem Order.Fits.claim (h : o.Fits did) :
    (Edit.claim.apply o).Fits did ∧ (Edit.claim.apply o).IsHonest := by
  obtain ⟨hfits, hhonest⟩ := h.refresh
  rw [Edit.apply]
  split
  · next hready =>
    have hall := hfits.valid (.inl hready)
    have hwas : o.refresh.status ≠ .valid := by
      rw [hready]
      decide
    exact ⟨hfits.withStatus (by decide) hwas (fun _ => hall) (absurd · (by decide)),
      isHonest_of_valid hall⟩
  · exact ⟨hfits, hhonest⟩

/-- Whether it is closed with a certificate or given up, all of its names are valid. -/
theorem Order.Fits.close {k : Option String} (h : o.Fits did) (hprocessing : o.status = .processing)
    (hdid : did ⟨.visit o.id (.close k), some o⟩) :
    ((Edit.close k).apply o).Fits did ∧ ((Edit.close k).apply o).IsHonest := by
  have hall := h.valid (.inr (decide_eq_true (.inr hprocessing)))
  cases k with
  | none =>
    have hwas : o.status ≠ .valid := by
      rw [hprocessing]
      decide
    exact ⟨h.withStatus nofun hwas (fun _ => hall) fun _ => .inr ⟨hall, o, hdid⟩,
      isHonest_of_valid hall⟩
  | some pem =>
    refine ⟨⟨iff_of_true rfl rfl, fun _ => hall, nofun, h.entries, fun {_} hpem => ?_⟩,
      isHonest_of_valid hall⟩
    obtain rfl := Option.some.inj hpem
    exact ⟨o, hdid⟩

/-- An edit keeps what is so of an order. It closes only orders that are being processed. -/
theorem Order.Fits.apply {edit : Edit} (h : o.Fits did) (hhonest : o.IsHonest)
    (hdid : did ⟨.visit o.id edit, some o⟩)
    (hclose : ∀ k, edit = .close k → o.status = .processing) :
    (edit.apply o).Fits did ∧ (edit.apply o).IsHonest := by
  cases edit with
  | read => exact ⟨h, hhonest⟩
  | look rejected =>
    refine (h.map (fun e hvalid => ?_) (fun e hfailed => ?_) fun e he => ?_).refresh
    · rwa [look_of_ne (by simp [hvalid])]
    · rwa [look_of_isFailed hfailed]
    · exact (h.entries e he).look he hdid
  | announce url => exact h.announce hhonest hdid
  | refresh => exact h.refresh
  | claim => exact h.claim
  | close k => exact h.close (hclose k rfl) hdid

/-- Only who closes an order that is settled does more than look at it. -/
theorem apply_of_isSettled {edit : Edit} (h : o.isSettled) (hclose : ∀ k, edit ≠ .close k) :
    (edit.apply o).status = o.status ∧ (edit.apply o).certificate = o.certificate := by
  have hrefresh : o.refresh = o := if_pos h
  cases edit with
  | read | announce => exact ⟨rfl, rfl⟩
  | look rejected =>
    have hlook : (Edit.look rejected).apply o =
        { o with entries := o.entries.map (look rejected) } := if_pos h
    rw [hlook]
    exact ⟨rfl, rfl⟩
  | refresh =>
    rw [Edit.apply, hrefresh]
    exact ⟨rfl, rfl⟩
  | claim =>
    rw [Edit.apply, hrefresh, if_neg]
    · exact ⟨rfl, rfl⟩
    · intro hready
      simp [Order.isSettled, hready] at h
  | close k => exact absurd rfl (hclose k)

theorem not_isSettled_of_ready (h : o.refresh.status = .ready) : ¬ o.isSettled := by
  intro hsettled
  rw [Order.refresh, if_pos hsettled] at h
  simp [Order.isSettled, h] at hsettled

end Fits

end DevelopmentAuthority

end CertSteward
