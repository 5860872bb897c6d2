import CertSteward.Proofs.Issuance.Failures
import CertSteward.Proofs.Renewal.Records

/-!
# Renewals of one record at the same time

Copies of a record that is due can be renewed at the same time. Each renewal looks at its own copy
to see whether it is due, and it does so before it holds the domain. So the domain keeps renewals
apart while they are at work, but does not make one of them superfluous: who waits for the domain
goes through the whole issuance once more when it is free, and may finalize an order although the
other renewal has just done so. Who does not wait is turned away.

## Main definitions

* `Renewing` — the weaves of renewals of one record
* `heeding` — the conduct of a strand with respect to domains and the authority
* `HandedOver` — one renewal lets the domain go, and another obtains it
* `refusals` — the conduct that keeps in mind whether a renewal was turned away
* `Overlap` — two renewals that overlap in time

## Main results

* `keeps_refusals_renewRecord` — who is turned away has its record as it was
* `Renewing.in_turn` — renewals have to do with the authority one after the other
* `Renewing.both_finalize` — two renewals of a record may both finalize
-/

namespace CertSteward

open Conduct

/-- What a renewal comes to. -/
abbrev Renewed := Except RecordFailure Renewal

/-- A weave that renewals of copies of `r`, none of them by force, can lead to: each renewal waits
for the domain or not, as its mode says. -/
def Renewing (p : RenewalPractice) (r : CertificateRecord) (modes : List LockMode)
    (w : Weave Renewed) : Prop :=
  Weave.Strides p.program
    (Weave.start (modes.map fun mode => renewRecord p.issuance p.window r { lock := mode })) w

/-- In between `i` lets its domain go, and after that `j` obtains its domain. -/
def HandedOver (between : List Event) (i j : Nat) : Prop :=
  ∃ first x last, between = first ++ x :: last ∧
    (x.strand = j ∧ Happening.obtainsDomain ⟨x.act, x.answer⟩ = true) ∧
    ∃ y ∈ first, y.strand = i ∧ Happening.leavesDomain ⟨y.act, y.answer⟩ = true

/-! ### What renewals ask about domains -/

/-- Whether a request starts nothing but jobs of the DNS service. -/
def Act.StartsErrands (b : Bool) : Act → Prop
  | .spawn j => j.IsErrand false
  | .wait (.all jobs) => ∀ j ∈ jobs, j.IsErrand b
  | _ => True

/-- A main program heeds what it may ask about the domains in `K` and of the authority. A job asks
nothing of the kind. -/
def heeding (K : String → Prop) (job : Option Job) : Conduct Tenure where
  may b t a := t.Allows K a ∧ a.StartsErrands b ∧
    (job = none ∨ a.LeavesDomains ∧ ∀ q, a ≠ .authority q)
  next t a answer := t.next a answer

/-- The rules for programs that heed what they may ask, and for their jobs. -/
def heedingRules (β : Type) (K : String → Prop) : Rules β Tenure where
  conduct _ job := heeding K job
  start _ := .before
  ends _ _ _ _ _ := True

section Keeping

variable {K : String → Prop} {b : Bool} {t : Tenure}

/-- A request that has nothing to do with it all. -/
theorem heeding_may {a : Act} (domains : a.LeavesDomains) (authority : ∀ q, a ≠ .authority q)
    (starts : a.StartsErrands b) (job : Option Job) : (heeding K job).may b t a :=
  ⟨Tenure.allows_of_leavesDomains domains authority, starts, .inr ⟨domains, authority⟩⟩

theorem keeps_heeding_issueCertificate (p : IssuancePractice) (r : IssuanceRequest)
    (mode : LockMode) : (heeding r.HasDomain none).Keeps (fun _ _ _ => True) false .before
      (issueCertificate p r mode) := by
  have htenancy := keeps_tenancy (b := false) p r mode
  have hprotocol := keeps_issueCertificate p r mode
  generalize issueCertificate p r mode = q at htenancy hprotocol ⊢
  refine ((htenancy.both hprotocol).forget (f := Prod.fst) ?_ fun _ _ _ => rfl).mono
    fun _ _ _ _ => trivial
  rintro b ⟨t, j⟩ a ⟨hmay, hstanding, -⟩
  refine ⟨hmay.allows, ?_, .inl rfl⟩
  cases a with
  | spawn => exact hstanding.elim
  | wait v =>
    cases v with
    | all jobs =>
      intro job hjob
      have hsend := hstanding.2 job hjob
      cases job with
      | provision | propagate => trivial
      | deprovision => exact hsend.1
      | _ => exact hsend.elim
    | _ => trivial
  | _ => trivial

/-- **Renewals heed** what they may ask: what they do besides the issuance needs no domain. -/
theorem keeps_heeding_renewRecord (p : IssuancePractice) (window : RenewalWindow)
    (r : CertificateRecord) (o : RenewOptions) :
    (heeding (IssuanceRequest.ofRecord r).HasDomain none).Keeps (fun _ _ _ => True) false .before
      (renewRecord p window r o) := by
  have free : ∀ {a : Act} {b : Bool} {t : Tenure}, a.LeavesDomains → (∀ q, a ≠ .authority q) →
      a.StartsErrands b → (heeding (IssuanceRequest.ofRecord r).HasDomain none).may b t a :=
    fun domains authority starts => heeding_may domains authority starts none
  unfold renewRecord
  split
  · trivial
  refine keeps_bind.mpr (keeps_perform.mpr ⟨free trivial nofun trivial, fun now _ => ?_⟩)
  refine keeps_bind.mpr (Keeps.mono (Q := fun b t _ => b = false ∧ t = .before) ?_ ?_)
  · unfold renewsNow
    split
    · exact ⟨rfl, rfl⟩
    · cases r.needsRenewal? window now with
      | some isDue => exact ⟨rfl, rfl⟩
      | none => exact ⟨free trivial nofun trivial, nofun⟩
  rintro _ _ (_ | _) ⟨rfl, rfl⟩
  · trivial
  unfold issueFor
  have hissue := keeps_heeding_issueCertificate p (.ofRecord r) o.lock
  generalize issueCertificate p (.ofRecord r) o.lock = q at hissue ⊢
  refine keeps_bind.mpr (keeps_bind.mpr (keeps_perform.mpr
    ⟨free trivial nofun trivial, fun started _ => ?_⟩))
  refine keeps_bind.mpr (hissue.mono fun b t issued _ => ?_)
  refine keeps_bind.mpr (keeps_perform.mpr ⟨free trivial nofun trivial, fun now _ => ?_⟩)
  refine keeps_bind.mpr (keeps_perform.mpr ⟨free trivial nofun trivial, fun later _ => ?_⟩)
  refine keeps_bind.mpr (keeps_perform.mpr ⟨free trivial nofun trivial, fun _ _ => ?_⟩)
  cases CertificateRecord.takeIssued r now issued with
  | error e =>
    exact keeps_bind.mpr (keeps_perform.mpr ⟨free trivial nofun trivial, fun _ _ => trivial⟩)
  | ok s => trivial

theorem heeding_admits {β : Type} {p : RenewalPractice} {run : Nat} {b : Bool} {j : Job}
    (h : j.IsErrand b) : (heedingRules β K).Admits p.program run b j := by
  refine keeps_map.mpr ((Keeps.of_may (keeps_program h) ?_).mono fun _ _ _ _ => trivial)
  intro b e a hmay
  have hfree : a.LeavesDomains ∧ (∀ q, a ≠ .authority q) ∧ a.StartsErrands b := by
    cases a with
    | locks | authority => cases hmay
    | spawn j =>
      obtain ⟨c, name, value, -, rfl⟩ := hmay
      exact ⟨trivial, nofun, rfl⟩
    | wait v =>
      cases v with
      | all | lock => cases hmay.2
      | _ => exact ⟨trivial, nofun, trivial⟩
    | _ => exact ⟨trivial, nofun, trivial⟩
  exact ⟨heeding_may hfree.1 hfree.2.1 hfree.2.2 _, fun _ => Tenure.next_of_leavesDomains hfree.1⟩

theorem heeding_covers (β : Type) (p : RenewalPractice) :
    (heedingRules β K).Covers p.program where
  spawn hmay := heeding_admits hmay.2.1
  divide hmay j hj := heeding_admits (hmay.2.1 j hj)

end Keeping

/-! ### Who is turned away -/

/-- What who is not given the domain is told. -/
def LockMode.refusal (domain : String) : LockMode → IssuanceError
  | .wait => .cancelled
  | .skip => .alreadyInFlight domain

/-- The conduct that keeps in mind whether the domain was refused. -/
def refusals : Conduct Bool where
  may _ _ _ := True
  next refused a answer := refused || Happening.refusesDomain ⟨a, answer⟩

section Refusals

variable {b : Bool} {normal : IssuanceRequest}

/-- Nothing is refused by anything that has nothing to do with domains. -/
theorem refusals_next {a : Act} {answer : a.Answer} (h : a.LeavesDomains) (refused : Bool) :
    refusals.next refused a answer = refused := by
  cases a with
  | locks => exact h.elim
  | wait v =>
    cases v with
    | lock => exact h.elim
    | _ => exact Bool.or_false _
  | _ => exact Bool.or_false _

theorem keeps_refusals_lockDomain (domain : String) (mode : LockMode) :
    refusals.Keeps (fun _ refused x => refused = false ∨ x = .error (mode.refusal domain)) b false
      (lockDomain domain mode) := by
  cases mode with
  | skip =>
    refine keeps_bind.mpr (keeps_bind.mpr (keeps_perform.mpr ⟨trivial, fun c _ => ?_⟩))
    refine keeps_bind.mpr (keeps_perform.mpr ⟨trivial, ?_⟩)
    rintro (_ | _) -
    · exact keeps_bind.mpr (keeps_perform.mpr ⟨trivial, fun _ _ => .inr rfl⟩)
    · exact .inl rfl
  | wait =>
    refine keeps_bind.mpr (keeps_perform.mpr ⟨trivial, ?_⟩)
    rintro (_ | _) -
    · exact .inl rfl
    refine keeps_bind.mpr (keeps_perform.mpr ⟨trivial, fun c _ => ?_⟩)
    refine keeps_bind.mpr (keeps_perform.mpr ⟨trivial, ?_⟩)
    rintro (_ | _) -
    · refine keeps_bind.mpr (keeps_perform.mpr ⟨trivial, fun _ _ => ?_⟩)
      exact keeps_bind.mpr (keeps_perform.mpr ⟨trivial, fun _ _ => .inr rfl⟩)
    · exact keeps_bind.mpr (keeps_perform.mpr ⟨trivial, fun _ _ => .inl rfl⟩)

/-- A run that is refused its domain says so and nothing else. -/
theorem keeps_refusals_issueCertificate (p : IssuancePractice) (r : IssuanceRequest)
    (mode : LockMode) : refusals.Keeps (fun _ refused x => refused = false ∨
      ∃ normal, r.normal = .ok normal ∧ x = .error (mode.refusal normal.primary)) b false
      (issueCertificate p r mode) := by
  unfold issueCertificate
  cases r.normal with
  | error e => exact .inl rfl
  | ok normal =>
    refine keeps_bind.mpr (keeps_perform.mpr ⟨trivial, fun key _ => ?_⟩)
    cases normal.signed key with
    | error e => exact .inl rfl
    | ok parts =>
      obtain ⟨pair, names, request⟩ := parts
      refine keeps_bind.mpr ((keeps_refusals_lockDomain normal.primary mode).mono ?_)
      rintro b _ (e | c) (rfl | hrefused)
      · exact .inl rfl
      · cases hrefused
        exact .inr ⟨normal, rfl, rfl⟩
      · have hheld := Keeps.of_only_stay (C := refusals) (s := false) (b := b)
          (only_issueHeld p normal.primary names request pair) (fun _ _ _ => trivial)
          fun _ _ h => refusals_next h.leavesDomains false
        refine keeps_bind.mpr (hheld.mono ?_)
        rintro b _ x rfl
        refine keeps_bind.mpr (keeps_bind.mpr (keeps_perform.mpr ⟨trivial, fun _ _ => ?_⟩))
        refine keeps_bind.mpr (keeps_perform.mpr ⟨trivial, fun _ _ => ?_⟩)
        exact keeps_perform.mpr ⟨trivial, fun _ _ => .inl rfl⟩
      · cases hrefused

/-- **A renewal that is refused its domain** leaves the record as it was. -/
theorem keeps_refusals_renewRecord (p : IssuancePractice) (window : RenewalWindow)
    (r : CertificateRecord) (o : RenewOptions) :
    refusals.Keeps (fun _ refused x => refused = false ∨ ∃ normal,
      (IssuanceRequest.ofRecord r).normal = .ok normal ∧
        x = .error { record := some r, error := o.lock.refusal normal.primary }) b false
      (renewRecord p window r o) := by
  have free : ∀ {a : Act} {answer : a.Answer} {refused : Bool}, a.LeavesDomains →
      refusals.next refused a answer = refused := fun domains => refusals_next domains _
  unfold renewRecord
  split
  · exact .inl rfl
  refine keeps_bind.mpr (keeps_perform.mpr ⟨trivial, fun now _ => ?_⟩)
  refine keeps_bind.mpr (Keeps.mono (Q := fun _ refused _ => refused = false) ?_ ?_)
  · unfold renewsNow
    split
    · rfl
    · cases r.needsRenewal? window now with
      | some isDue => rfl
      | none => exact ⟨trivial, nofun⟩
  rintro b _ (_ | _) rfl
  · exact .inl rfl
  unfold issueFor
  have hissue := keeps_refusals_issueCertificate (b := b) p (.ofRecord r) o.lock
  generalize issueCertificate p (.ofRecord r) o.lock = q at hissue ⊢
  refine keeps_bind.mpr (keeps_bind.mpr (keeps_perform.mpr ⟨trivial, fun started _ => ?_⟩))
  refine keeps_bind.mpr (hissue.mono ?_)
  intro b refused issued hissued
  refine keeps_bind.mpr (keeps_perform.mpr ⟨trivial, fun now _ => ?_⟩)
  refine keeps_bind.mpr (keeps_perform.mpr ⟨trivial, fun later _ => ?_⟩)
  refine keeps_bind.mpr (keeps_perform.mpr ⟨trivial, fun _ _ => ?_⟩)
  rw [free (a := .note _) trivial, free (a := .now) trivial, free (a := .wallClock) trivial]
  obtain rfl | ⟨normal, hnormal, rfl⟩ := hissued
  · cases CertificateRecord.takeIssued r now issued with
    | error e => exact keeps_bind.mpr (keeps_perform.mpr ⟨trivial, fun _ _ => .inl rfl⟩)
    | ok s => exact .inl rfl
  · refine keeps_bind.mpr (keeps_perform.mpr ⟨trivial, fun _ _ => .inr ⟨normal, hnormal, ?_⟩⟩)
    cases o.lock <;> rfl

end Refusals

/-- What is kept in mind is whether some answer refused the domain. -/
theorem foldl_refusals (path : List Happening) (refused : Bool) :
    path.foldl (fun t h => refusals.next t h.1 h.2) refused =
      (refused || path.any Happening.refusesDomain) := by
  induction path generalizing refused with
  | nil => exact (Bool.or_false refused).symm
  | cons h path ih => rw [List.foldl_cons, ih, List.any_cons, ← Bool.or_assoc]; rfl

namespace Renewing

variable {p : RenewalPractice} {r : CertificateRecord} {modes : List LockMode} {w : Weave Renewed}
variable {i j : Nat} {e : Event} {pre post : List Event}

theorem holds (h : Renewing p r modes w) :
    (heedingRules Renewed (IssuanceRequest.ofRecord r).HasDomain).Holds w := by
  refine Rules.holds_of_leads (fun i q hq => ?_) (heeding_covers _ p)
    (fun _ _ => Weave.Stride.turn) h
  rw [List.getElem?_map, Option.map_eq_some_iff] at hq
  obtain ⟨mode, -, rfl⟩ := hq
  exact keeps_map.mpr (keeps_heeding_renewRecord p.issuance p.window r { lock := mode })

/-- What a strand asks for is what it may ask for. -/
theorem may (h : Renewing p r modes w) {s : Strand Renewed} (here : w.strands[i]? = some s)
    {a : Act} {next : a.Answer → Steward (Outcome ⊕ Renewed)} (asks : s.program = .ask a next) :
    (heeding (IssuanceRequest.ofRecord r).HasDomain s.job).may s.isWatching (w.tenure i) a := by
  have hgov := h.holds i s here
  rw [Rules.Governs, asks] at hgov
  exact hgov.1

theorem heeds (h : Renewing p r modes w) :
    w.Heeds fun _ => (IssuanceRequest.ofRecord r).HasDomain :=
  fun _ _ _ _ here asks => (h.may here asks).1

/-- All renewals are for one domain. -/
theorem eq_of_hasDomain {r : IssuanceRequest} {k l : String} (hk : r.HasDomain k)
    (hl : r.HasDomain l) : k = l := by
  obtain ⟨_, hnormal, rfl⟩ := hk
  obtain ⟨_, hnormal', rfl⟩ := hl
  cases hnormal.symm.trans hnormal'
  rfl

/-- At most one renewal is inside at a time. -/
theorem eq_of_inside {first last : List Event} (h : Renewing p r modes w)
    (hlog : w.log = first ++ last) (hi : Inside first i) (hj : Inside first j) : i = j :=
  Weave.eq_of_inside_earlier (fun _ => heeds) h (fun _ _ => eq_of_hasDomain) hlog hi hj

/-- The authority is asked by renewals that are inside. -/
theorem inside_of_authority (h : Renewing p r modes w) (hlog : w.log = pre ++ e :: post)
    {q : AuthorityRequest} (hq : e.act = .authority q) : e.strand = e.run ∧ Inside pre e.run := by
  obtain ⟨v, s, next, hlead, rfl, here, hrun, asks⟩ :=
    Weave.Leads.event h (fun _ _ => Weave.Stride.turn) rfl hlog
  obtain ⟨hallows, -, hmain | ⟨-, hnone⟩⟩ := may hlead here asks
  · have hstrand : e.strand = e.run :=
      (Weave.Leads.main hlead (fun _ _ => Weave.Stride.turn) here hmain).1.symm.trans hrun
    rw [hq] at hallows
    exact ⟨hstrand, hstrand ▸ (Weave.inside_iff (fun _ => heeds) hlead).mpr hallows⟩
  · exact absurd hq (hnone q)

/-- **The domain is handed over** between the calls of two renewals. -/
theorem handedOver {mid : List Event} {e' : Event} (h : Renewing p r modes w)
    (hlog : w.log = pre ++ e :: (mid ++ e' :: post)) {q q' : AuthorityRequest}
    (hq : e.act = .authority q) (hq' : e'.act = .authority q') (hne : e.run ≠ e'.run) :
    HandedOver mid e.run e'.run := by
  obtain ⟨hstrand, hi⟩ := h.inside_of_authority hlog hq
  have hlog' : w.log = (pre ++ e :: mid) ++ e' :: post := by
    rw [hlog, List.append_assoc, List.cons_append]
  obtain ⟨-, hj⟩ := h.inside_of_authority hlog' hq'
  -- the other renewal was not inside before, so it obtained the domain in between
  obtain ⟨x, hx, hxstrand, hobtains⟩ : ∃ x ∈ mid, x.strand = e'.run ∧
      Happening.obtainsDomain ⟨x.act, x.answer⟩ = true := by
    obtain hbefore | ⟨x, hx, hxstrand, hobtains⟩ := hj.of_append
    · exact absurd (h.eq_of_inside hlog hi hbefore) hne
    · obtain rfl | hx := List.mem_cons.mp hx
      · exact absurd (hstrand.symm.trans hxstrand) hne
      · exact ⟨x, hx, hxstrand, hobtains⟩
  obtain ⟨first, last, rfl⟩ := List.append_of_mem hx
  refine ⟨first, x, last, rfl, ⟨hxstrand, hobtains⟩, ?_⟩
  have hcall : Happening.leavesDomain ⟨e.act, e.answer⟩ = false := by
    obtain ⟨_, _, act, _⟩ := e
    obtain rfl : act = _ := hq
    rfl
  -- if the one had not left by then, both would be inside
  refine Classical.byContradiction fun hnone => hne ?_
  have hsplit : w.log = (pre ++ e :: (first ++ [x])) ++ (last ++ e' :: post) := by
    rw [hlog]
    simp only [List.append_assoc, List.cons_append, List.nil_append]
  have hpart : Inside ((pre ++ e :: (first ++ [x])) ++ last) e'.run := by
    rw [List.append_assoc, List.cons_append, List.append_assoc, List.singleton_append]
    exact hj
  refine h.eq_of_inside hsplit (hi.append fun y hy hystrand => ?_)
    (hpart.since (by simp) hxstrand hobtains)
  refine Bool.eq_false_iff.mpr fun hleaves => ?_
  obtain rfl | hy := List.mem_cons.mp hy
  · exact Bool.false_ne_true (hcall.symm.trans hleaves)
  obtain hy | hy := List.mem_append.mp hy
  · exact hnone ⟨y, hy, hystrand, hleaves⟩
  · obtain rfl := List.mem_singleton.mp hy
    exact hne (hystrand.symm.trans hxstrand)

/-- Who is refused the domain is reported so, and its record is as it was. -/
theorem returned_of_refused {mode : LockMode} {x : Renewed} (h : Renewing p r modes w)
    (hmode : modes[i]? = some mode) (hrefused : ∃ o ∈ happenings w.log i, o.refusesDomain = true)
    (hx : w.returned i = some x) : ∃ normal, (IssuanceRequest.ofRecord r).normal = .ok normal ∧
      x = .error { record := some r, error := mode.refusal normal.primary } := by
  have hq : (modes.map fun mode => renewRecord p.issuance p.window r { lock := mode })[i]? =
      some (renewRecord p.issuance p.window r { lock := mode }) := by
    rw [List.getElem?_map, hmode]
    rfl
  obtain ⟨s, here, -, hrun⟩ := Weave.Leads.main_here h (fun _ _ => Weave.Stride.turn) hq
  obtain ⟨q, b, c, hq', -, hends⟩ := Weave.ends_of_returned h hx here
  rw [hrun, hq] at hq'
  cases hq'
  refine ((keeps_refusals_renewRecord p.issuance p.window r { lock := mode }).goes
    hends).resolve_left ?_
  rw [foldl_refusals, Bool.false_or]
  exact ne_false_of_eq_true (List.any_eq_true.mpr hrefused)

/-- **Renewals of one record are in turn.** However renewals of copies of one record come between
each other, and wherever they are interrupted: at any time at most one of them is inside, and all
that a renewal asks of the authority it asks inside. So between the calls of two renewals the one
has let the domain go, and the other has obtained it since. Nobody is given the domain while another
is inside, and who is refused it never calls the authority and leaves the record as it was. -/
theorem in_turn (h : Renewing p r modes w) :
    (∀ first last i j, w.log = first ++ last → Inside first i → Inside first j → i = j) ∧
    (∀ pre e post q, w.log = pre ++ e :: post → e.act = .authority q →
      e.strand = e.run ∧ Inside pre e.run) ∧
    (∀ pre e mid e' post q q', w.log = pre ++ e :: (mid ++ e' :: post) → e.act = .authority q →
      e'.act = .authority q' → e.run ≠ e'.run → HandedOver mid e.run e'.run) ∧
    (∀ pre e post i, w.log = pre ++ e :: post → Inside pre i →
      Happening.obtainsDomain ⟨e.act, e.answer⟩ = false) ∧
    ∀ i mode, modes[i]? = some mode → (∃ o ∈ happenings w.log i, o.refusesDomain = true) →
      (∀ e ∈ w.log, e.run = i → ∀ q, e.act ≠ .authority q) ∧
        ∀ x, w.returned i = some x → ∃ normal,
          (IssuanceRequest.ofRecord r).normal = .ok normal ∧
            x = .error { record := some r, error := mode.refusal normal.primary } := by
  refine ⟨fun _ _ _ _ => h.eq_of_inside, fun _ _ _ _ hlog => h.inside_of_authority hlog,
    fun _ _ _ _ _ _ _ hlog => h.handedOver hlog, fun _ _ _ _ hlog hi => ?_,
    fun i mode hmode hrefused => ⟨fun e he hrun q hq => ?_,
      fun _ => h.returned_of_refused hmode hrefused⟩⟩
  · exact Weave.unobtained_of_inside (fun _ => heeds) h (fun _ _ => eq_of_hasDomain) hlog hi
  · -- the call was made inside, so the domain was obtained
    obtain ⟨pre, post, hlog⟩ := List.append_of_mem he
    obtain ⟨-, ⟨o, ho, hobtains⟩, -⟩ := h.inside_of_authority hlog hq
    have hmem : o ∈ happenings w.log i := by
      rw [hlog, happenings_append]
      exact List.mem_append_left _ (hrun ▸ ho)
    have hno := Weave.unobtained_of_refused (fun _ => heeds) h hrefused o hmem
    exact Bool.false_ne_true (hno.symm.trans hobtains)

end Renewing

/-! ### Two renewals that finalize -/

/-- Whether a request finalizes an order. -/
def Act.finalizes : Act → Bool
  | .authority (.finalize ..) => true
  | _ => false

theorem Act.eq_authority_of_finalizes {a : Act} (h : a.finalizes = true) :
    ∃ q, a = .authority q := by
  cases a with
  | authority q => exact ⟨q, rfl⟩
  | _ => cases h

/-- What the clock on the wall said. -/
def Happening.reading? : Happening → Option Instant
  | ⟨.wallClock, now⟩ => some now
  | _ => none

/-- A record is due whenever a renewal looks at the clock. -/
def CertificateRecord.DueIn (r : CertificateRecord) (window : RenewalWindow) (log : List Event) :
    Prop :=
  ∀ e ∈ log, ∀ now ∈ Happening.reading? ⟨e.act, e.answer⟩, r.needsRenewal? window now = some true

/-- Runs `i` and `j` overlap: after some of what happened each has begun, and is to go on. -/
def Overlap (log : List Event) (i j : Nat) : Prop :=
  ∃ n, ∀ k ∈ [i, j], (∃ e ∈ log.take n, e.run = k) ∧ ∃ e ∈ log.drop n, e.run = k

/-- A record that runs out soon. -/
def sampleDue : CertificateRecord :=
  { id := "cert_1", primaryDomain := "example.com", autoRenew := true, status := .issued
    expiresAt := some { seconds := 20 }
    createdAt := { seconds := 9 }, updatedAt := { seconds := 9 } }

/-- Two renewals of it: the second waits while the first is at work. -/
def sampleRenewals : Option (Weave Renewed) :=
  (List.replicate 8 0 ++ List.replicate 7 1 ++ List.replicate 50 0 ++ List.replicate 51 1).foldlM
    (Weave.play ({} : RenewalPractice).program Contending.blankAnswers)
    (Weave.start ([LockMode.wait, .wait].map fun mode =>
      renewRecord {} {} sampleDue { lock := mode }))

namespace Renewing

/-- Both go all the way to the order, the second when the first has ended. -/
theorem sampleRenewals_finalize : ∃ w ∈ sampleRenewals, sampleDue.DueIn {} w.log ∧
    (∀ k ∈ [0, 1], (∃ e ∈ w.log.take 11, e.run = k) ∧ ∃ e ∈ w.log.drop 11, e.run = k) ∧
    (∃ e ∈ w.log.take 45, e.run = 0 ∧ e.act.finalizes = true) ∧
    ∃ e ∈ w.log.drop 45, e.run = 1 ∧ e.act.finalizes = true := by
  unfold CertificateRecord.DueIn
  decide +kernel

/-- In between the first has let the domain go, and the second has obtained it. -/
theorem in_turn_sampleRenewals : ∃ w pre e mid e' post, Renewing {} sampleDue [.wait, .wait] w ∧
    w.log = pre ++ e :: (mid ++ e' :: post) ∧ (e.run = 0 ∧ e.act.finalizes = true) ∧
    (e'.run = 1 ∧ e'.act.finalizes = true) ∧ HandedOver mid e.run e'.run := by
  obtain ⟨w, hw, -, -, ⟨e, he, hrun, hfinal⟩, e', he', hrun', hfinal'⟩ := sampleRenewals_finalize
  have h : Renewing {} sampleDue [.wait, .wait] w := Weave.strides_of_play hw
  obtain ⟨pre, first, hfirst⟩ := List.append_of_mem he
  obtain ⟨last, post, hlast⟩ := List.append_of_mem he'
  have hlog : w.log = pre ++ e :: ((first ++ last) ++ e' :: post) := by
    rw [← List.take_append_drop 45 w.log, hfirst, hlast]
    simp only [List.append_assoc, List.cons_append]
  obtain ⟨q, hq⟩ := Act.eq_authority_of_finalizes hfinal
  obtain ⟨q', hq'⟩ := Act.eq_authority_of_finalizes hfinal'
  obtain ⟨-, -, hover, -⟩ := in_turn h
  exact ⟨w, pre, e, _, e', post, h, hlog, ⟨hrun, hfinal⟩, ⟨hrun', hfinal'⟩,
    hover pre e _ e' post q q' hlog hq hq' (by rw [hrun, hrun']; decide)⟩

/-- Of two renewals that overlap both may finalize, although the record was due but once. -/
theorem both_finalize : ¬ ∀ p r mode mode' w, Renewing p r [mode, mode'] w →
    r.DueIn p.window w.log → Overlap w.log 0 1 →
    ¬ ((∃ e ∈ w.log, e.run = 0 ∧ e.act.finalizes = true) ∧
      ∃ e ∈ w.log, e.run = 1 ∧ e.act.finalizes = true) := by
  intro honce
  obtain ⟨w, hw, hdue, hoverlap, ⟨e, he, hfirst⟩, e', he', hsecond⟩ := sampleRenewals_finalize
  exact honce {} sampleDue .wait .wait w (Weave.strides_of_play hw) hdue ⟨11, hoverlap⟩
    ⟨⟨e, List.mem_of_mem_take he, hfirst⟩, e', List.mem_of_mem_drop he', hsecond⟩

end Renewing

end CertSteward
