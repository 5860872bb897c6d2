import CertSteward.Proofs.Issuance.Failures
import CertSteward.Proofs.Material.Request
import CertSteward.Proofs.Record.Names

/-!
# The names of a record, from its making to its order

The domains of a record are normalized when it is made, and once more by each run for it, which
changes nothing. So the record, the request for its certificate and the order of every run all have
the same list of names.

## Main definitions

* `OrdersFor` — what a run asks the authority for is asked for a list of names

## Main results

* `IssuanceRequest.normal_ofRecord` — a record needs no further normalization
* `IssuanceRequest.signed_ofRecord` — a request for its names can be made with every key
* `Contending.ordersFor` — a run for a record orders its names
* `CertificateRecord.names_throughout` — one list, from the making of a record to its order
-/

namespace CertSteward

/-! ### The request for a record -/

namespace IssuanceRequest

variable {id domainId primary : String} {others : List String} {wildcard autoRenew : Bool}
variable {now : Instant} {r : CertificateRecord}

open CertificateRecord

/-- The domains of a record are normal already. -/
theorem normal_ofRecord (h : make id domainId primary others wildcard autoRenew now = .ok r) :
    (ofRecord r).normal = .ok (ofRecord r) := by
  obtain ⟨p, ns, hp, hns, rfl⟩ := make_eq_ok h
  have hprimary : domain p false = .ok p := domain_eq_ok_iff.mpr (Domain.normalize_idem hp)
  have hothers : ((ns.filter fun n => n ≠ p ∧ n ≠ Domain.wildcardOf p).eraseDups).mapM
      (fun name => domain name true) =
      .ok (ns.filter fun n => n ≠ p ∧ n ≠ Domain.wildcardOf p).eraseDups := by
    refine mapM_domain_eq_ok_iff.mpr (List.forall₂_same.mpr fun n hn => ?_)
    obtain ⟨d, hd⟩ := exists_of_normalized hns (List.mem_filter.mp (List.mem_eraseDups.mp hn)).1
    exact Domain.normalize_idem hd
  simp only [normal, ofRecord, hprimary, hothers]
  rfl

/-- A request for the names of a record can be made with every key. -/
theorem signed_ofRecord (h : make id domainId primary others wildcard autoRenew now = .ok r)
    {names : List String} (hnames : r.names? = some names) (key : KeyPair) :
    ∃ request, CertificateRequest.ofNames names key = .ok request ∧
      CertificateRequest.build r.primaryDomain r.sanDomains r.wildcard key = .ok (names, request) ∧
      (ofRecord r).signed (.ok key) = .ok (key, names, (request.toDer key).write) := by
  obtain ⟨p, ns, hp, hns, hr⟩ := make_eq_ok h
  have hprimary : ∃ n, Domain.normalize r.primaryDomain false = .ok n := by
    rw [hr]
    exact ⟨p, Domain.normalize_idem hp⟩
  have hothers : ∀ d ∈ r.sanDomains, ∃ n, Domain.normalize d true = .ok n := by
    intro n hn
    rw [hr] at hn
    obtain ⟨d, hd⟩ := exists_of_normalized hns (List.mem_filter.mp (List.mem_eraseDups.mp hn)).1
    exact ⟨n, Domain.normalize_idem hd⟩
  have hchars := CertificateRequest.hasNameChars_of_nameList? hprimary hothers hnames
  obtain ⟨request, hrequest⟩ : ∃ request, CertificateRequest.ofNames names key = .ok request :=
    ⟨_, CertificateRequest.ofNames_eq hchars⟩
  have hbuild : CertificateRequest.build r.primaryDomain r.sanDomains r.wildcard key =
      .ok (names, request) := by
    have hlist : nameList? r.primaryDomain r.sanDomains r.wildcard = some names := hnames
    simp only [CertificateRequest.build, hlist, hrequest]
    rfl
  refine ⟨request, hrequest, hbuild, ?_⟩
  simp only [signed, ofRecord, bind, Except.bind, hbuild]
  rfl

/-- Whatever is signed for a record is the request for its names. -/
theorem names_of_signed (h : make id domainId primary others wildcard autoRenew now = .ok r)
    {names ns : List String} (hnames : r.names? = some names) {key : Except MaterialError KeyPair}
    {pair : KeyPair} {bytes : List UInt8}
    (hs : (ofRecord r).signed key = .ok (pair, ns, bytes)) :
    ns = names ∧ ∃ k request, key = .ok k ∧ CertificateRequest.ofNames names k = .ok request ∧
      bytes = (request.toDer k).write := by
  cases key with
  | error e => simp [signed, bind, Except.bind, Except.mapError] at hs
  | ok k =>
    obtain ⟨request, hrequest, -, hsigned⟩ := signed_ofRecord h hnames k
    simp only [hsigned, Except.ok.injEq, Prod.mk.injEq] at hs
    obtain ⟨-, hns, hbytes⟩ := hs
    exact ⟨hns.symm, k, request, rfl, hns ▸ hrequest, hbytes.symm⟩

end IssuanceRequest

/-! ### What a run orders -/

/-- What is asked of the authority along a path is asked for a list of names: orders are placed for
these names, and finalized with the request for them with a key that was made on the way. -/
def OrdersFor (names : List String) (path : List Happening) : Prop :=
  ∀ q, AsksFor path q → match q with
    | .newOrder ns => ns = names
    | .finalize _ bytes => ∃ kind key request, (⟨.freshKey kind, .ok key⟩ : Happening) ∈ path ∧
        CertificateRequest.ofNames names key = .ok request ∧ bytes = (request.toDer key).write
    | _ => True

section Runs

variable {p : IssuancePractice} {mode : LockMode} {b c : Bool} {path : List Happening}

/-- A run orders what its request says, signed with the key that it made. -/
theorem orders_of_goes {r : IssuanceRequest} {rest : Steward Issued} {q : AuthorityRequest}
    (h : Steward.Goes b (issueCertificate p r mode) path c rest) (hq : AsksFor path q) :
    ∃ normal key pair names request, r.normal = .ok normal ∧
      (⟨.freshKey p.settings.key, key⟩ : Happening) ∈ path ∧
      normal.signed key = .ok (pair, names, request) ∧ q.Orders names request := by
  unfold issueCertificate at h
  cases hnormal : r.normal with
  | error e =>
    rw [hnormal] at h
    cases h
    exact absurd hq not_asksFor_nil
  | ok normal =>
    rw [hnormal] at h
    obtain rfl | ⟨key, rest, d, rfl, hafter⟩ := Steward.goes_perform_bind h
    · exact absurd hq not_asksFor_nil
    · have hq : AsksFor rest q := (asksFor_cons.mp hq).resolve_left nofun
      cases hsigned : normal.signed key with
      | error e =>
        rw [hsigned] at hafter
        cases hafter
        exact absurd hq not_asksFor_nil
      | ok signed =>
        obtain ⟨pair, names, request⟩ := signed
        rw [hsigned] at hafter
        refine ⟨normal, key, pair, names, request, rfl, List.mem_cons_self, hsigned, ?_⟩
        -- the domain is taken and let go without a call
        let S (a : Act) : Prop := ∀ q, a = .authority q → q.Orders names request
        have hrest := Steward.Only.goes (S := S)
          ((only_lockDomain (fun _ => nofun) (fun _ => nofun) nofun nofun normal.primary mode).bind
            fun lock => ?_) hafter
        · obtain ⟨answer, hmem⟩ := hq
          exact hrest _ hmem q rfl
        · cases lock with
          | error e => exact Steward.only_pure _
          | ok lock =>
            have hheld : Steward.Only S (issueHeld p normal.primary names request pair) :=
              (orders_issueHeld p normal.primary names request pair).mono fun _ => And.right
            exact hheld.bind fun _ => (only_unlockDomain (fun _ => nofun) _ _).bind fun _ =>
              Steward.only_pure _

/-- The way to a certificate led past an order and its finalization. -/
theorem placed_of_drove {names : List String} {request : List UInt8} {chain : String}
    {s : RunState} {path : List Happening} (h : Drove p names request path (.ok chain) s) :
    AsksFor path (.newOrder names) ∧ ∃ order, AsksFor path (.finalize order request) := by
  obtain ⟨b, c, hends⟩ := h.ends
  have hvisited := h.complete.mp rfl
  have horders : ∀ q, AsksFor path q → q.Orders names request := fun q hq =>
    (only_drive p names request {}).of_asksFor hends hq
  have hopened : ∀ stage ∈ IssuanceState.wholeCourse, ∀ o ∈ stage.opening?,
      ∃ q, AsksFor path q ∧ q.operation = o := hvisited ▸ h.opened
  obtain ⟨q, hq, hplaced⟩ := hopened .accountReady (by decide) _ rfl
  obtain ⟨q', hq', hfinalized⟩ := hopened .finalizing (by decide) _ rfl
  constructor
  · cases q with
    | newOrder ns =>
      obtain rfl : ns = names := horders _ hq
      exact hq
    | _ => simp [AuthorityRequest.operation] at hplaced
  · cases q' with
    | finalize order bytes =>
      obtain rfl : bytes = request := horders _ hq'
      exact ⟨order, hq'⟩
    | _ => simp [AuthorityRequest.operation] at hfinalized

/-- A run that succeeds has placed its order and finalized it, and hands out the names of it. -/
theorem placed_of_issueHeld {domain : String} {names : List String} {request : List UInt8}
    {key : KeyPair} {issued : IssuedCertificate}
    (h : Steward.Ends b (issueHeld p domain names request key) path c (.ok issued)) :
    issued.names = names ∧ AsksFor path (.newOrder names) ∧
      ∃ order, AsksFor path (.finalize order request) := by
  obtain ⟨started, now, watched, cleaned, last, x, s, failures, d, d', rfl, hwatched, -, hcomes⟩ :=
    ends_issueHeld h
  have hin : ∀ {q}, AsksFor watched q → AsksFor
      (⟨.now, started⟩ :: (watched ++ ⟨.unwatch, ()⟩ :: (cleaned ++ ⟨.now, now⟩ :: last))) q :=
    fun hq => asksFor_cons.mpr (.inr (asksFor_append.mpr (.inl hq)))
  generalize hy : (Except.ok issued : Issued) = y at hcomes
  cases hcomes with
  | ok chain wall report =>
    obtain ⟨during, _, _, rfl, hdrive⟩ | ⟨-, hno⟩ := hwatched
    · obtain ⟨hplaced, order, hfinalized⟩ := placed_of_drove (drove_of_ends hdrive).1
      refine ⟨?_, hin (asksFor_cons.mpr (.inr hplaced)), order,
        hin (asksFor_cons.mpr (.inr hfinalized))⟩
      cases hm : materialOf chain key wall with
      | error e =>
        rw [hm] at hy
        cases hy
      | ok material =>
        rw [hm] at hy
        cases hy
        rfl
    · cases hno
  | cancelled => cases hy
  | failed ne => cases hy

end Runs

namespace Contending

variable {p : RenewalPractice} {requests : List (IssuanceRequest × LockMode)} {w : Weave Issued}
variable {i : Nat} {mode : LockMode}

/-- Whatever a run has come to, it went along its program. -/
theorem goes {q : IssuanceRequest} (h : Contending p requests w)
    (hr : requests[i]? = some (q, mode)) :
    ∃ b c rest, Steward.Goes b (issueCertificate p.issuance q mode) (w.path i) c rest := by
  obtain ⟨s, here, hmain, hrun⟩ := h.main_here hr
  obtain ⟨b, program, -, hbegin, hgoes⟩ := Weave.onCourse_of_strides h i s here
  obtain ⟨-, main, hq, rfl⟩ | ⟨j, hjob, -⟩ := hbegin
  · rw [hrun, List.getElem?_map, hr] at hq
    cases hq
    obtain ⟨rest, hrest⟩ := Steward.goes_of_map hgoes
    exact ⟨b, _, rest, hrest⟩
  · rw [hmain] at hjob
    cases hjob

/-- A run that succeeded went all the way along its program. -/
theorem ends_of_issued {q : IssuanceRequest} {issued : IssuedCertificate}
    (h : Contending p requests w) (hr : requests[i]? = some (q, mode))
    (hreturned : w.returned i = some (.ok issued)) :
    ∃ b c, Steward.Ends b (issueCertificate p.issuance q mode) (w.path i) c (.ok issued) := by
  obtain ⟨s, here, hmain, hrun⟩ := h.main_here hr
  obtain ⟨program, b, c, hq, -, hends⟩ := Weave.ends_of_returned h hreturned here
  rw [hrun, List.getElem?_map, hr] at hq
  cases hq
  exact ⟨b, c, hends⟩

section Made

variable {id domainId primary : String} {others : List String} {wildcard autoRenew : Bool}
variable {now : Instant} {r : CertificateRecord} {names : List String}

/-- A run for a record orders its names. -/
theorem ordersFor (h : Contending p requests w)
    (hmade : CertificateRecord.make id domainId primary others wildcard autoRenew now = .ok r)
    (hnames : r.names? = some names) (hr : requests[i]? = some (.ofRecord r, mode)) :
    OrdersFor names (w.path i) := by
  intro q hq
  obtain ⟨b, c, rest, hgoes⟩ := h.goes hr
  obtain ⟨normal, key, pair, ns, bytes, hnormal, hkey, hs, horders⟩ := orders_of_goes hgoes hq
  rw [IssuanceRequest.normal_ofRecord hmade, Except.ok.injEq] at hnormal
  subst hnormal
  obtain ⟨rfl, k, request, rfl, hrequest, rfl⟩ := IssuanceRequest.names_of_signed hmade hnames hs
  cases q with
  | newOrder => exact horders
  | finalize => exact ⟨_, k, request, hkey, hrequest, horders⟩
  | _ => trivial

/-- A run for a record that succeeded has ordered and finalized. -/
theorem placed (h : Contending p requests w)
    (hmade : CertificateRecord.make id domainId primary others wildcard autoRenew now = .ok r)
    (hnames : r.names? = some names) (hr : requests[i]? = some (.ofRecord r, mode))
    {issued : IssuedCertificate} (hreturned : w.returned i = some (.ok issued)) :
    issued.names = names ∧ AsksFor (w.path i) (.newOrder names) ∧
      ∃ order bytes, AsksFor (w.path i) (.finalize order bytes) := by
  obtain ⟨b, c, hends⟩ := h.ends_of_issued hr hreturned
  obtain ⟨normal, key, pair, ns, bytes, before, held, after, d, d', hnormal, hs, hpath, -, -,
    hheld⟩ := ends_issueCertificate hends (.inr rfl)
  rw [IssuanceRequest.normal_ofRecord hmade, Except.ok.injEq] at hnormal
  subst hnormal
  obtain ⟨rfl, -⟩ := IssuanceRequest.names_of_signed hmade hnames hs
  obtain ⟨hissued, hplaced, order, hfinalized⟩ := placed_of_issueHeld hheld
  have hin : ∀ {q}, AsksFor held q → AsksFor (w.path i) q := fun hq => by
    rw [hpath]
    exact asksFor_append.mpr (.inl (asksFor_append.mpr (.inr hq)))
  exact ⟨hissued, hin hplaced, order, bytes, hin hfinalized⟩

end Made

end Contending

/-- **One list of names, from the making of a record to its order.** The names of a record that was
just made are its primary domain, the further ones in the order in which they were given, each once,
and the wildcard of the primary domain at the end if it was asked for in either way. No two of them
are the same up to case. A run for the record finds its domains normal, makes the request for
exactly these names, and orders and finalizes for them whenever it does so, which it does before it
succeeds. -/
theorem CertificateRecord.names_throughout {id domainId primary : String} {others : List String}
    {wildcard autoRenew : Bool} {now : Instant} {r : CertificateRecord}
    (h : make id domainId primary others wildcard autoRenew now = .ok r) :
    ∃ p ns, Domain.normalize primary false = .ok p ∧
      List.Forall₂ (fun d n => Domain.normalize d true = .ok n) others ns ∧
      let names := Domain.inOrder p ns wildcard
      r.names? = some names ∧
      names.Pairwise (fun a b => Text.sameIgnoringCase a b = false) ∧
      (r.wildcard = true ↔ Domain.wildcardOf p ∈ names) ∧
      (IssuanceRequest.ofRecord r).normal = .ok (.ofRecord r) ∧
      (∀ key, ∃ request, CertificateRequest.ofNames names key = .ok request ∧
        CertificateRequest.build r.primaryDomain r.sanDomains r.wildcard key =
          .ok (names, request)) ∧
      ∀ practice requests w i mode, Contending practice requests w →
        requests[i]? = some (.ofRecord r, mode) →
        OrdersFor names (w.path i) ∧
          ∀ issued, w.returned i = some (.ok issued) → issued.names = names ∧
            AsksFor (w.path i) (.newOrder names) ∧
            ∃ order bytes, AsksFor (w.path i) (.finalize order bytes) := by
  obtain ⟨p, ns, hp, hns, hnames, hdifferent, hwildcard⟩ := names?_of_make h
  refine ⟨p, ns, hp, hns, hnames, hdifferent, hwildcard, IssuanceRequest.normal_ofRecord h,
    fun key => ?_, fun practice requests w i mode hw hr =>
      ⟨hw.ordersFor h hnames hr, fun issued hreturned => hw.placed h hnames hr hreturned⟩⟩
  obtain ⟨request, hrequest, hbuild, -⟩ := IssuanceRequest.signed_ofRecord h hnames key
  exact ⟨request, hrequest, hbuild⟩

/-! ### A run that has placed its order -/

/-- The names of a record that was made for `Example.com.` and some more, two of them the same. -/
def sampleNames : List String := ["example.com", "www.example.com", "*.example.com"]

/-- A record that was made for `sampleNames`. -/
def sampleNamed : CertificateRecord where
  id := "cert_1"
  primaryDomain := "example.com"
  sanDomains := ["www.example.com"]
  wildcard := true
  autoRenew := true
  createdAt := { seconds := 9 }
  updatedAt := { seconds := 9 }

theorem make_sampleNamed : CertificateRecord.make "cert_1" "" "Example.com."
    ["WWW.example.com", "*.EXAMPLE.com", "www.example.com"] false true { seconds := 9 } =
      .ok sampleNamed := rfl

/-- A run for it, up to its order. -/
def sampleOrdering : Option (Weave Issued) :=
  (List.replicate 16 0).foldlM
    (Weave.play ({} : RenewalPractice).program Contending.blankAnswers)
    (Weave.start ([(IssuanceRequest.ofRecord sampleNamed, LockMode.wait)].map fun (r, mode) =>
      issueCertificate {} r mode))

theorem sampleOrdering_asks : sampleOrdering.map (fun w => (w.path 0)[11]?) =
    some (some ⟨.authority (.newOrder sampleNames),
      (.ok { id := "order", identifiers := sampleNames }, (0 : Nat))⟩) := by
  rfl

/-- The record has these names, and the order is placed for them. -/
theorem names_throughout_sampleNamed : sampleNamed.names? = some sampleNames ∧
    ∃ w, Contending {} [(.ofRecord sampleNamed, .wait)] w ∧
      AsksFor (w.path 0) (.newOrder sampleNames) ∧ OrdersFor sampleNames (w.path 0) := by
  obtain ⟨p, ns, -, -, hnames, -, -, -, -, hruns⟩ :=
    CertificateRecord.names_throughout make_sampleNamed
  have hsample : sampleNamed.names? = some sampleNames := rfl
  obtain ⟨w, hw, hasks⟩ := Option.map_eq_some_iff.mp sampleOrdering_asks
  have hcontending : Contending {} [(.ofRecord sampleNamed, .wait)] w := Weave.strides_of_play hw
  have horders := (hruns {} _ w 0 .wait hcontending rfl).1
  rw [Option.some.inj (hnames.symm.trans hsample)] at horders
  exact ⟨hsample, w, hcontending, ⟨_, List.mem_of_getElem? hasks⟩, horders⟩

end CertSteward
