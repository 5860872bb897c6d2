import CertSteward.Issuance.Run
import CertSteward.Proofs.Authority.Attribution
import CertSteward.Proofs.Authority.Development
import CertSteward.Proofs.Dns.Calls
import CertSteward.Proofs.Domain.NameList
import CertSteward.Proofs.Issuance.Passage
import CertSteward.Proofs.Material.Chain
import CertSteward.Proofs.Material.Lengths
import CertSteward.Proofs.Record.Names
import CertSteward.Proofs.Time.Order
import Mathlib.Data.List.Perm.Subperm

/-!
# A run over the development authority

Over the development authority and records in memory a run comes to its certificate unless one of
three things is in the way: more failures were injected than calls are tried again, the names stay
pending for longer than there are delays, or one of the names is rejected. Whatever comes of it, its
records are removed and its order is given up.

A request that normalizes comes to a list of names without capitals, each there once, and to bytes
that the authority reads as the request for these names. What the authority signs for it is read as
what it signed, so that only its dates decide whether it can be used.

Rounds of the machine and lengths of values are bounded, but by more than any memory holds; so is
the number of names.

## Main definitions

* `OrderedNames` — the names of a request that normalizes
* `DevelopmentAuthority.IsGood` — when a certificate that was signed can be used
* `Trial` — nothing is done wrong but what the authority was told to
* `Unhindered` — nothing is in the way of a certificate
* `Trial.Verdict`, `Trial.Cleared` — what a run comes to, and what it leaves

## Main results

* `IssuanceRequest.exists_signed` — the names and the bytes of a request
* `DevelopmentAuthority.materialOf_chainFor` — the use of a certificate
* `Trial.comes_drive` — a run up to its certificate
* `Leavings.yields_cleanUp` — what is left of a run is cleaned up
* `Trial.run_issueCertificate` — the whole run
-/

namespace CertSteward

/-! ### Names -/

/-- The names of a request that normalizes. -/
structure OrderedNames (names : List String) : Prop where
  ne : names ≠ []
  nodup : names.Nodup
  small : ∀ n ∈ names, Domain.IsSmall n
  chars : ∀ n ∈ names, Domain.HasNameChars n
  size : ∀ n ∈ names, n.utf8ByteSize ≤ 255

theorem Domain.IsSmall.lower_eq {n : String} (h : Domain.IsSmall n) : Text.lower n = n := by
  rw [Text.lower, h, String.ofList_toList]

/-- Without leave for it a name has no star. -/
theorem Domain.isBare_of_normalize {d n : String} (h : Domain.normalize d false = .ok n) :
    Domain.IsBare n := by
  obtain ⟨-, -, labels, -, hlabels, hjoin | ⟨hstar, -⟩⟩ := Domain.normalize_eq_ok_iff.mp h
  · exact fun rest hrest => Domain.intercalate_ne_star hlabels _ (hjoin.symm.trans hrest)
  · cases hstar

/-- Names are added once. -/
theorem nodup_foldl_addName (names : List String) {acc : List String} (h : acc.Nodup) :
    (names.foldl addName acc).Nodup := by
  induction names generalizing acc with
  | nil => exact h
  | cons n names ih =>
    refine ih ?_
    rw [addName]
    split
    · exact h
    · rename_i hnew
      refine List.nodup_append.mpr ⟨h, List.nodup_singleton n, fun a ha b hb hab => hnew (.inr ?_)⟩
      obtain rfl := List.mem_singleton.mp hb
      subst hab
      exact List.any_eq_true.mpr ⟨a, ha, beq_self_eq_true _⟩

theorem nodup_of_nameList? {primary : String} {others names : List String} {wildcard : Bool}
    (h : nameList? primary others wildcard = some names) : names.Nodup ∧ names ≠ [] := by
  rw [nameList?] at h
  split at h
  · cases h
  · rename_i hne
    cases h
    exact ⟨nodup_foldl_addName _ List.nodup_nil, hne⟩

namespace IssuanceRequest

variable {r n : IssuanceRequest} {names : List String}

/-- The domains of a request that was normalized are their own normal forms. -/
theorem normalized (h : r.normal = .ok n) : Domain.normalize n.primary false = .ok n.primary ∧
    ∀ d ∈ n.others, Domain.normalize d true = .ok d := by
  rw [normal] at h
  cases hprimary : CertificateRecord.domain r.primary false with
  | error e =>
    rw [hprimary] at h
    cases h
  | ok primary =>
    cases hothers : r.others.mapM fun name => CertificateRecord.domain name true with
    | error e =>
      rw [hprimary, hothers] at h
      cases h
    | ok others =>
      rw [hprimary, hothers] at h
      cases h
      refine ⟨Domain.normalize_idem (CertificateRecord.domain_eq_ok_iff.mp hprimary), fun d hd => ?_⟩
      obtain ⟨d', hd'⟩ := CertificateRecord.exists_of_normalized
        (CertificateRecord.mapM_domain_eq_ok_iff.mp hothers) hd
      exact Domain.normalize_idem hd'

/-- Only the domains of a request and the wildcard of its first are ordered. -/
theorem eq_of_mem (h : r.normal = .ok n)
    (hnames : nameList? n.primary n.others n.wildcard = some names) {m : String} (hm : m ∈ names) :
    m ∈ n.primary :: n.others ∨ m = Domain.wildcardOf n.primary := by
  obtain ⟨hprimary, hothers⟩ := normalized h
  have hm := mem_nameList? hnames hm
  rw [nameCandidates, Domain.trim_of_normalize hprimary] at hm
  obtain hm | hm := List.mem_append.mp hm
  · obtain rfl | hm := List.mem_cons.mp hm
    · exact .inl List.mem_cons_self
    · obtain ⟨d, hd, rfl⟩ := List.mem_map.mp hm
      rw [Domain.trim_of_normalize (hothers d hd)]
      exact .inl (List.mem_cons_of_mem _ hd)
  · split at hm
    · exact .inr (List.mem_singleton.mp hm)
    · cases hm

/-- The records for a name belong to one of the domains. -/
theorem exists_base_eq (h : r.normal = .ok n)
    (hnames : nameList? n.primary n.others n.wildcard = some names) {m : String} (hm : m ∈ names) :
    ∃ d ∈ n.primary :: n.others, Domain.base m = Domain.base d := by
  obtain hm | rfl := eq_of_mem h hnames hm
  · exact ⟨m, hm, rfl⟩
  · have hbare := Domain.isBare_of_normalize (normalized h).1
    refine ⟨n.primary, List.mem_cons_self, ?_⟩
    rw [hbare.base_eq, Domain.base, Domain.toList_wildcardOf]
    exact String.ofList_toList

theorem length_names_le (h : r.normal = .ok n)
    (hnames : nameList? n.primary n.others n.wildcard = some names) :
    names.length ≤ n.others.length + 2 := by
  have hsubset : names ⊆ Domain.wildcardOf n.primary :: n.primary :: n.others := by
    intro m hm
    obtain hm | rfl := eq_of_mem h hnames hm
    · exact List.mem_cons_of_mem _ hm
    · exact List.mem_cons_self
  exact ((nodup_of_nameList? hnames).1.subperm hsubset).length_le

/-- The names of a request that normalizes. -/
theorem orderedNames (h : r.normal = .ok n)
    (hnames : nameList? n.primary n.others n.wildcard = some names) : OrderedNames names := by
  obtain ⟨hprimary, hothers⟩ := normalized h
  obtain ⟨hnodup, hne⟩ := nodup_of_nameList? hnames
  have hsize {d : String} {wildcard : Bool} (hd : Domain.normalize d wildcard = .ok d) :
      d.utf8ByteSize ≤ 253 := (Domain.normalize_eq_ok_iff.mp hd).2.1
  have hname : ∀ m ∈ names, Domain.IsSmall m ∧ m.utf8ByteSize ≤ 255 := by
    intro m hm
    obtain hm | rfl := eq_of_mem h hnames hm
    · obtain rfl | hm := List.mem_cons.mp hm
      · exact ⟨Domain.isSmall_of_normalize hprimary, Nat.le_trans (hsize hprimary) (by decide)⟩
      · have hm := hothers m hm
        exact ⟨Domain.isSmall_of_normalize hm, Nat.le_trans (hsize hm) (by decide)⟩
    · refine ⟨(Domain.isSmall_of_normalize hprimary).wildcardOf, ?_⟩
      rw [Domain.wildcardOf, String.utf8ByteSize_append]
      exact Nat.add_le_add_left (hsize hprimary) 2
  exact ⟨hne, hnodup, fun m hm => (hname m hm).1,
    CertificateRequest.hasNameChars_of_nameList? ⟨_, hprimary⟩ (fun d hd => ⟨d, hothers d hd⟩) hnames,
    fun m hm => (hname m hm).2⟩

/-- A request that normalizes comes to bytes that are read as the request for its names. -/
theorem exists_signed (h : r.normal = .ok n) {key : KeyPair} (hkey : key.IsMade)
    (hcount : n.others.length < 2 ^ 56) :
    ∃ names request, nameList? n.primary n.others n.wildcard = some names ∧
      n.signed (.ok key) = .ok (key, names, (request.toDer key).write) ∧
      CertificateRequest.ofNames names key = .ok request ∧
      CertificateRequest.ofBytes? (request.toDer key).write = some request := by
  obtain ⟨hprimary, hothers⟩ := normalized h
  obtain ⟨names, hnames⟩ := exists_nameList? n.others n.wildcard
    (Domain.trim_ne_empty_of_normalize hprimary)
  have hordered := orderedNames h hnames
  have hrequest : CertificateRequest.ofNames names key = .ok _ :=
    CertificateRequest.ofNames_eq hordered.chars
  refine ⟨names, _, hnames, ?_, hrequest, ?_⟩
  · simp only [signed, bind, Except.bind, CertificateRequest.build, hnames, hrequest]
    rfl
  · exact CertificateRequest.ofBytes?_toDer (CertificateRequest.isProper_ofNames hordered.chars hrequest)
      (CertificateRequest.length_toDer_lt hkey hordered.chars hordered.size
        (Nat.le_trans (length_names_le h hnames) (by omega)) hrequest)

end IssuanceRequest

/-! ### Certificates -/

/-- A chain whose first certificate did not run out can be used. -/
theorem materialOf_of_good {chain certificate above : String} {start expiresAt now : Instant}
    {key : KeyPair} (hchain : Pem.splitChain chain = .ok (certificate, above))
    (hdates : certificateValidity certificate = .ok (start, expiresAt)) (hlasts : ¬ expiresAt ≤ now) :
    materialOf chain key now =
      .ok { certificate, chain := above, key := key.privateKey, issuedAt := now, expiresAt } := by
  unfold materialOf
  simp only [hchain, hdates, Except.mapError, bind, Except.bind, hlasts, if_false]
  rfl

namespace DevelopmentAuthority

variable {a : DevelopmentAuthority} {signed now : Instant} {names : List String} {key : KeyPair}
variable {r : CertificateRequest}

/-- A certificate that was signed at that time can be written down, and is good at the other. -/
structure IsGood (a : DevelopmentAuthority) (signed now : Instant) : Prop where
  notBefore : Asn1Time.IsWritable (startOf signed)
  notAfter : Asn1Time.IsWritable (endOf signed a.lifetime)
  lasts : now < ⟨(endOf signed a.lifetime).seconds, 0⟩

/-- A certificate that was signed for names is read as it was signed. -/
theorem ofBytes?_leafDer (hkey : key.IsMade) (hnames : OrderedNames names)
    (hcount : names.length ≤ 2 ^ 60) (hr : CertificateRequest.ofNames names key = .ok r)
    (hgood : a.IsGood signed now) :
    Certificate.ofBytes? (a.leafDer signed r) = some (a.leafFor signed r).toSeconds := by
  have hproper := CertificateRequest.isProper_ofNames hnames.chars hr
  rw [CertificateRequest.ofNames_eq hnames.chars] at hr
  cases hr
  let r : CertificateRequest :=
    { subject := .ofTexts [(.commonName, names.headD "")]
      names := names.map CertificateRequest.identifier, publicKey := key.publicKey
      signature := key.signatureKind }
  have hextensions : (a.leafFor signed r).extensions =
      [.subjectNames (names.map CertificateRequest.identifier)] :=
    if_neg (by simpa [r] using hnames.ne)
  have hissuer : ∀ x ∈ [(ObjectId.commonName, "certkeeper development root"),
      (ObjectId.organization, "certkeeper")], x.1.IsProper ∧
        x.1.path.sum + x.1.path.length ≤ 100 ∧ x.2.utf8ByteSize ≤ 255 := by
    rintro x (_ | ⟨_, _ | ⟨_, hx⟩⟩)
    · exact ⟨⟨2, 5, _, rfl, by decide, by decide, nofun⟩, by decide, by decide⟩
    · exact ⟨⟨2, 5, _, rfl, by decide, by decide, nofun⟩, by decide, by decide⟩
    · cases hx
  refine Certificate.ofBytes?_toDer ⟨a.key.isProper_signatureKind,
    DistinguishedName.isProper_ofTexts fun x hx => (hissuer x hx).1, hgood.notBefore,
    hgood.notAfter, hproper.subject, key.isPublicKey, ?_⟩ ?_
  · rw [hextensions]
    rintro e (_ | ⟨_, he⟩)
    · exact CertificateRequest.isProper_subjectNames
    · cases he
  · -- no part is longer than the names ask for
    obtain ⟨n, hn⟩ : ∃ n, n = 16384 * names.length + 10000000 := ⟨_, rfl⟩
    have hserial (bs : List UInt8) (hbs : bs.length ≤ 32) :
        (Der.integerOfBytes bs).contents.length ≤ n := by
      have hwrite := (Der.integerOfBytes bs).length_contents_le
      have := Der.length_integerOfBytes_le bs
      omega
    have hissuer := DistinguishedName.length_ofTexts_le fun x hx => (hissuer x hx).2
    have hextension : (Der.sequence ((a.leafFor signed r).extensions.map
        Extension.toDer)).write.length ≤ 2 * (1 * (8192 * names.length + 1000)) + 2 := by
      rw [hextensions]
      exact Der.length_sequence_le (l := [_]) fun v hv =>
        List.mem_singleton.mp hv ▸ CertificateRequest.length_subjectNames_le hnames.size
    have hsubject := CertificateRequest.length_commonName_le hnames.size
    refine Certificate.length_toDer_lt (n := n) (by omega) ⟨hgood.notBefore, hgood.notAfter⟩
      (hserial _ ?_) (Nat.le_trans a.key.length_signatureKind_le (by omega))
      (Nat.le_trans hissuer ?_) (Nat.le_trans hsubject (by omega))
      (Nat.le_trans (KeyPair.length_publicKey_le hkey) (by omega))
      (Nat.le_trans hextension (by omega)) (Nat.le_trans (a.key.length_sign_le _) (by omega))
    · exact Nat.le_trans (List.length_take_le _ _) (by decide)
    · rw [List.length_cons, List.length_singleton]
      omega

/-- A certificate that is good can be used, with the root certificate above it. -/
theorem materialOf_chainFor {root : List UInt8} (hroot : a.rootPem = Pem.ofCertificates [root])
    (hkey : key.IsMade) (hnames : OrderedNames names) (hcount : names.length ≤ 2 ^ 60)
    (hr : CertificateRequest.ofNames names key = .ok r) (hgood : a.IsGood signed now) :
    materialOf (a.chainFor signed r) key now = .ok
      { certificate := Pem.ofCertificates [a.leafDer signed r], chain := a.rootPem
        key := key.privateKey, issuedAt := now
        expiresAt := ⟨(endOf signed a.lifetime).seconds, 0⟩ } := by
  have hchain : Pem.splitChain (a.chainFor signed r) =
      .ok (Pem.ofCertificates [a.leafDer signed r], a.rootPem) := by
    rw [chainFor, hroot]
    exact Pem.splitChain_eq_ok_iff.mpr ⟨_, _, Pem.certificates_append (List.cons_ne_nil _ _) _, rfl,
      rfl⟩
  have hread : certificateValidity (Pem.ofCertificates [a.leafDer signed r]) =
      .ok (⟨(startOf signed).seconds, 0⟩, ⟨(endOf signed a.lifetime).seconds, 0⟩) := by
    have hcertificate := Pem.certificates_ofCertificates (List.cons_ne_nil (a.leafDer signed r) [])
    rw [certificateValidity, Certificate.ofPem, hcertificate]
    change (Certificate.read (a.leafDer signed r)).map _ = _
    rw [Certificate.read, ofBytes?_leafDer hkey hnames hcount hr hgood]
    rfl
  exact materialOf_of_good hchain hread (Instant.not_le.mpr hgood.lasts)

end DevelopmentAuthority

/-! ### Runs -/

/-- The service and the authority do nothing wrong but what the authority was told to. -/
structure Trial (q : RenewalPractice) (a : DevelopmentAuthority) (d : MemoryDns) : Prop where
  propagation : q.issuance.dns.propagation = none
  budget : q.issuance.settings.retry.budget = none
  offers : a.offersDns = true
  orders : a.orders = []
  polls : a.validationPolls < 2 ^ 32
  root : ∃ der, a.rootPem = Pem.ofCertificates [der]
  key : ∀ bits, q.issuance.settings.key = .rsa bits → KeySpec.isSize bits = true
  steady : d.IsSteady
  deletes : d.failsDeletes = false

/-- What is left for a run to clean up: its records and its order. -/
structure Leavings (locks : MutexTable String Unit) (d : MemoryDns) (s : RunState) (w : World) :
    Prop where
  site : ∃ a' d', Site locks a' d' w ∧ d.Holds s.challenges.keys d' ∧
    ∀ o ∈ a'.orders, ∃ h, s.order = some h ∧ o.id = h.id

/-- Nothing is in the way of a certificate for these names. -/
structure Unhindered (settings : IssuanceSettings) (a : DevelopmentAuthority) (names : List String) :
    Prop where
  calls : a.failingCalls ≤ settings.callRetries
  polls : settings.validation.lasts a.validationPolls = true
  accepted : ∀ n ∈ names, n ∉ a.rejected

/-- How a run fails. -/
structure Hindered (settings : IssuanceSettings) (a : DevelopmentAuthority) (names : List String)
    (e : IssuanceError) : Prop where
  ne : e ≠ .cancelled
  hindered : ¬ Unhindered settings a names
  rejected : a.failingCalls ≤ settings.callRetries →
    settings.validation.lasts a.validationPolls = true →
    ∃ n, names.find? (a.rejected.contains ·) = some n ∧
      e = .authorizationRejected n ("incorrect TXT record found at " ++ Domain.challengeName n)

theorem Passage.leavings {locks : MutexTable String Unit} {a : DevelopmentAuthority} {d d' : MemoryDns}
    {names : List String} {es : List ChallengeEntry} {machine : IssuanceMachine}
    {o : DevelopmentAuthority.Order} {s : RunState} {w : World}
    (h : Passage locks a d' names es machine o s w) (hholds : d.Holds (es.map (·.key)) d') :
    Leavings locks d s w := by
  obtain ⟨a', htends, hsite⟩ := h.site
  refine ⟨a', d', hsite, ?_, fun x hx => ⟨_, h.order, ?_⟩⟩
  · rw [ChallengeSet.keys_eq_of_lasting h.lasting]
    exact hholds
  · rw [htends.orders] at hx
    rw [List.mem_singleton.mp hx]

/-- The machine of a run that has reached so many states after the first. -/
def IssuanceMachine.reaching (n : Nat) : IssuanceMachine where
  state := IssuanceState.all.getD n .failed
  earlier := IssuanceState.all.take n

namespace Domain

variable {m n : String}

/-- Record names that are the same up to case belong to domains that are. -/
theorem lower_base_of_challengeName
    (h : Text.lower (challengeName n) = Text.lower (challengeName m)) :
    Text.lower (base n) = Text.lower (base m) := by
  have hlist := congrArg String.toList h
  simp only [Text.lower, challengeName, String.toList_append, String.toList_ofList,
    Chars.lower, List.map_append] at hlist
  rw [Text.lower, Text.lower]
  exact congrArg String.ofList (List.append_cancel_left hlist)

/-- A name without capitals is a domain or its wildcard. -/
theorem IsSmall.eq_base_or_wildcardOf (h : IsSmall n) :
    n = Text.lower (base n) ∨ n = Domain.wildcardOf (Text.lower (base n)) := by
  obtain hstar | hbare := eq_wildcardOf_or_isBare n
  · have hbase : IsSmall (base n) := by
      rw [IsSmall, hstar, toList_wildcardOf] at h
      exact (List.cons.inj (List.cons.inj h).2).2
    rw [hbase.lower_eq]
    exact .inr hstar
  · rw [hbare.base_eq]
    exact .inl h.lower_eq.symm

end Domain

namespace Trial

variable {q : RenewalPractice} {a : DevelopmentAuthority} {d : MemoryDns} {w : World}
variable {locks : MutexTable String Unit} {names : List String} {request : List UInt8}
variable {r : CertificateRequest}

/-- At most two names share a record name: a domain and its wildcard. -/
theorem length_filter_challengeName_le (h : OrderedNames names) (name : String) :
    (names.filter fun n => Text.lower (Domain.challengeName n) = name).length ≤ 2 := by
  cases hfilter : names.filter fun n => Text.lower (Domain.challengeName n) = name with
  | nil => exact Nat.zero_le _
  | cons m rest =>
    have hmem : ∀ n ∈ m :: rest, n ∈ names ∧ Text.lower (Domain.challengeName n) = name := by
      intro n hn
      rw [← hfilter] at hn
      simpa using hn
    have hsubset : m :: rest ⊆ [Text.lower (Domain.base m),
        Domain.wildcardOf (Text.lower (Domain.base m))] := by
      intro n hn
      have hsame : Text.lower (Domain.base n) = Text.lower (Domain.base m) :=
        Domain.lower_base_of_challengeName ((hmem n hn).2.trans (hmem m List.mem_cons_self).2.symm)
      obtain hn | hn := (h.small n (hmem n hn).1).eq_base_or_wildcardOf
      · rw [hn, hsame]
        exact List.mem_cons_self
      · rw [hn, hsame]
        exact List.mem_cons_of_mem _ List.mem_cons_self
    have hnodup : (m :: rest).Nodup := hfilter ▸ h.nodup.filter _
    exact (hnodup.subperm hsubset).length_le

theorem length_filter_key_le {es : List ChallengeEntry} (h : OrderedNames names)
    (hes : es.map (·.identifier) = names)
    (hnamed : ∀ e ∈ es, e.recordName = Domain.challengeName e.identifier) (k : SlotKey) :
    (es.filter (·.key = k)).length ≤ 2 := by
  refine Nat.le_trans ?_ (length_filter_challengeName_le h k.1)
  rw [← hes, List.filter_map, List.length_map, ← List.countP_eq_length_filter,
    ← List.countP_eq_length_filter]
  refine List.countP_mono_left fun e he hkey => ?_
  have hname : (slotKey e.recordName e.recordValue).1 = k.1 :=
    congrArg Prod.fst (of_decide_eq_true hkey)
  rw [slotKey, hnamed e he] at hname
  rw [Function.comp_apply]
  exact decide_eq_true hname

/-- A run gets to its certificate unless something is in the way. -/
theorem comes_drive (t : Trial q a d) (h : Site locks a d w) (hnames : OrderedNames names)
    (hcount : names.length < 2 ^ 57)
    (hserved : ∀ n ∈ names, d.supports (Domain.base n) = true)
    (hr : CertificateRequest.ofBytes? request = some r) :
    Driving.Comes q.program
      (fun s w e => Leavings locks d s w ∧ Hindered q.issuance.settings a names e)
      (fun s w chain => Leavings locks d s w ∧ Unhindered q.issuance.settings a names ∧
        s.machine = .reaching 7 ∧ s.order.isSome ∧ ∃ a' signed, a.Alike a' ∧ chain = a'.chainFor signed r ∧
          w.wall = signed.next.next) {} w (drive q.issuance names request) := by
  unfold drive
  refine .bind (h.call_ensureAccount t.budget (fun a₁ w₁ hsite halike horders hcalls hle => ?_)
    fun a₁ w₁ hsite horders hlt => ?_)
  · obtain ⟨id, entries, a₂, hanswer, htends, hids, hpending⟩ :=
      DevelopmentAuthority.newOrder_spec w₁.wall.next (horders.trans t.orders) hcalls
        hnames.ne
    have hids : entries.map (·.identifier) = names := by
      rw [hids]
      exact (List.map_congr_left fun n hn => (hnames.small n hn).lower_eq).trans (List.map_id _)
    have hne : entries ≠ [] := by
      rintro rfl
      exact hnames.ne hids.symm
    have htends : a.Tends (.waiting id entries a.validationPolls []) a₂ :=
      halike.validationPolls ▸ ⟨halike.trans htends.toAlike, htends.orders, htends.failingCalls⟩
    refine .bind (.advance (.reaching 1) rfl (.bind (hsite.call hanswer
      (.bind (.modify (.bind (.advance (.reaching 2) rfl ?_)))))))
    have hpassage : Passage locks a d names [] (.reaching 2)
        (.waiting id entries a.validationPolls [])
        { machine := .reaching 2, order := some ⟨id, names⟩ } (w₁.told a₂) :=
      ⟨rfl, rfl, rfl, a₂, htends, hsite.told a₂⟩
    refine .bind (hpassage.call (r := .authorizations ⟨id, names⟩) _ _
      (fun a' ha' => ha'.authorizations_nil hne hpending) rfl fun a' hpassage => ?_)
    refine .bind (hpassage.advance (.reaching 3) rfl fun s hpassage => ?_)
    refine .bind (hpassage.takeChallenges t.offers hpending (hids ▸ hnames.nodup)
      fun s hpassage => ?_)
    have hidentifiers : (entries.map a.challenge).map (·.identifier) = names := by
      rw [List.map_map]
      exact hids
    have hserves : ∀ e ∈ entries.map a.challenge,
        d.supports (Domain.base e.identifier) = true := fun e he =>
      hserved _ (hidentifiers ▸ List.mem_map_of_mem he)
    have hfew : (entries.map a.challenge).length < 2 ^ 57 := by
      rw [← List.length_map (·.identifier), hidentifiers]
      exact hcount
    have hnamed : ∀ e ∈ entries.map a.challenge,
        e.recordName = Domain.challengeName e.identifier := by
      intro e he
      obtain ⟨x, -, rfl⟩ := List.mem_map.mp he
      rfl
    refine .bind (hpassage.makeRecords t.propagation t.steady hserves (by simpa using hne) hfew
      (length_filter_key_le hnames hidentifiers hnamed) fun d' s w hholds hpassage => ?_)
    refine .bind (hpassage.advance (.reaching 4) rfl fun s hpassage => ?_)
    refine .bind (.get (.bind (hpassage.submits fun ready s w hready hpassage => ?_)))
    refine .bind (hpassage.advance (.reaching 5) rfl fun s hpassage => ?_)
    refine .bind (hpassage.awaitAuthorizations hne hpending hready t.polls
      (fun s w hlasts haccepted hpassage => ?_) (fun e s w hlasts hfirst hpassage => ?_)
      fun o s w elapsed hlasts hpassage => ?_)
    · refine .bind (hpassage.advance (.reaching 6) rfl fun s hpassage => ?_)
      refine .bind (hpassage.finalize haccepted hr fun a' w' ha' hwall hpassage => ?_)
      refine .bind (hpassage.awaitCertificate fun w'' hwall' hpassage => ?_)
      refine .bind (hpassage.advance (.reaching 7) rfl fun s hpassage => .pure
        ⟨hpassage.leavings hholds, ⟨hle, hlasts, fun n hn hmem => ?_⟩, hpassage.machine, ?_, a', _, ha',
          rfl, ?_⟩)
      · rw [← hids] at hn
        obtain ⟨e, he, rfl⟩ := List.mem_map.mp hn
        have hcontains := haccepted e he
        rw [List.contains_iff_mem.mpr hmem] at hcontains
        cases hcontains
      · rw [hpassage.order]
        rfl
      · rw [hwall', hwall]
    · have hrejected : names.find? (a.rejected.contains ·) = some e.identifier := by
        rw [← hids, List.find?_map]
        exact congrArg (Option.map _) hfirst
      refine ⟨hpassage.leavings hholds, nofun, fun hfree => ?_, fun _ _ => ⟨_, hrejected, rfl⟩⟩
      exact hfree.accepted _ (List.mem_of_find?_eq_some hrejected)
        (List.contains_iff_mem.mp (List.find?_some hrejected))
    · refine ⟨hpassage.leavings hholds, nofun, fun hfree => ?_, fun _ hpolls => ?_⟩
      · exact Bool.false_ne_true (hlasts.symm.trans hfree.polls)
      · exact absurd (hlasts.symm.trans hpolls) Bool.false_ne_true
  · refine ⟨⟨a₁, d, hsite, ⟨rfl, fun e he => .inl he⟩, fun o ho => ?_⟩, nofun,
      fun hfree => ?_, fun hle => ?_⟩
    · rw [horders, t.orders] at ho
      cases ho
    · exact absurd hfree.calls (Nat.not_le.mpr hlt)
    · exact absurd hle (Nat.not_le.mpr hlt)

end Trial

/-! ### Clean up -/

namespace Leavings

variable {q : RenewalPractice} {d : MemoryDns} {w : World} {locks : MutexTable String Unit}
variable {s : RunState}

/-- The records of challenges are looked for one after the other. -/
theorem eval?_tracked {d' : MemoryDns} (h : Ledger w d') (es : List ChallengeEntry) :
    w.eval? (es.mapM fun e => DnsPractice.tracked e.recordName e.recordValue) =
      some (es.map fun e => (d'.entryAt? e.key).map fun x =>
        { name := e.recordName, value := e.recordValue, id := x.id }, w) := by
  induction es with
  | nil => rfl
  | cons e es ih =>
    rw [List.mapM_cons, World.eval?_bind_of h.eval?_tracked, World.eval?_bind_of ih]
    rfl

/-- The records of the challenges of a run are removed. -/
theorem yields_removal {a' : DevelopmentAuthority} {d' : MemoryDns} (hsite : Site locks a' d' w)
    (hholds : d.Holds s.challenges.keys d') (hd : d.failsDeletes = false) (q : RenewalPractice) :
    ∃ found d₁ w₁, Yields q.program
        (s.challenges.entries.mapM fun e => DnsPractice.tracked e.recordName e.recordValue) w found w ∧
      Yields q.program (DnsPractice.deprovisionAll (found.filterMap id)) w 0 w₁ ∧
      Site locks a' d₁ w₁ ∧ d₁.entries ⊆ d.entries ∧ w₁.wall = w.wall := by
  let found (e : ChallengeEntry) : Option DnsHandle := (d'.entryAt? e.key).map fun x =>
    { name := e.recordName, value := e.recordValue, id := x.id }
  have hmem : ∀ h, h ∈ (s.challenges.entries.map found).filterMap id ↔
      ∃ e ∈ s.challenges.entries, found e = some h := by
    intro h
    simp
  have hknows : ∀ h ∈ (s.challenges.entries.map found).filterMap id, d'.Knows h := by
    intro h hh
    obtain ⟨e, -, he⟩ := (hmem h).mp hh
    obtain ⟨x, hx, rfl⟩ := Option.map_eq_some_iff.mp he
    have hkey := List.find?_some (p := fun x : MemoryDns.Entry => decide (x.key = e.key)) hx
    exact hsite.ledger.knows_of_mem (List.mem_of_find?_eq_some hx) (of_decide_eq_true hkey) rfl
  obtain ⟨w₁, d₁, hyields, hledger, hremoval, hframe⟩ :=
    hsite.ledger.yields_deprovisionAll_within q hknows
  have hfails : d'.failsDeletes = false := hholds.failsDeletes.trans hd
  rw [hfails, if_neg Bool.false_ne_true] at hyields
  refine ⟨_, d₁, w₁, .of_eval? (eval?_tracked hsite.ledger _), hyields, ⟨?_, hledger, ?_, ?_⟩,
    fun x hx => ?_, by rw [hframe]⟩
  · rw [hframe]
    exact hsite.authority
  · rw [hframe]
    exact hsite.whole
  · rw [hframe]
    exact hsite.locks
  · -- a record with the key of a challenge is among those that were removed
    rw [hremoval.entries, hfails, if_neg Bool.false_ne_true] at hx
    obtain ⟨hx, hkept⟩ := List.mem_filter.mp hx
    refine (hholds.entries x hx).resolve_right fun hkey => of_decide_eq_true hkept ?_
    obtain ⟨e, he, hek⟩ := List.mem_map.mp hkey
    have hthere : d'.entryAt? e.key = some x := hek ▸ hsite.ledger.entryAt?_of_mem hx
    refine List.mem_map.mpr ⟨_, (hmem _).mpr ⟨e, he, congrArg (Option.map _) hthere⟩, hek⟩

/-- A note of what is left changes nothing that a run relies on. -/
theorem exists_noted {a' : DevelopmentAuthority} {d' : MemoryDns} (h : Site locks a' d' w)
    (counts : Bool) : ∃ w', (∀ rest : Unit → Steward Nat,
      w.follows? (if counts then perform (.note (.debt 0)) >>= rest else rest ()) =
        w'.follows? (rest ())) ∧ Site locks a' d' w' ∧ w'.wall = w.wall := by
  cases counts with
  | true =>
    exact ⟨_, fun rest => World.follows?_bind_of (World.follows?_perform _),
      ⟨h.authority, h.ledger.congr h.ledger.dns rfl rfl rfl, h.whole, h.locks⟩, rfl⟩
  | false => exact ⟨w, fun rest => rfl, h, rfl⟩

/-- What is left of a run is cleaned up. -/
theorem yields_cleanUp (h : Leavings locks d s w) (hd : d.failsDeletes = false) :
    ∃ a' d' w', Yields q.program (cleanUp q.issuance s) w 0 w' ∧ Site locks a' d' w' ∧
      a'.orders = [] ∧ d'.entries ⊆ d.entries ∧
      (s.order.isSome → w'.wall = w.wall.next) := by
  obtain ⟨a', d', hsite, hholds, horders⟩ := h.site
  obtain ⟨found, d₁, w₁, hlooks, hyields, hsite₁, hgone, hwall₁⟩ :=
    yields_removal hsite hholds hd q
  obtain ⟨w₂, hnotes, hsite₂, hwall⟩ := exists_noted hsite₁ q.issuance.countsDebt
  rw [cleanUp]
  cases horder : s.order with
  | none =>
    have hnone : a'.orders = [] := List.eq_nil_iff_forall_not_mem.mpr fun o ho => by
      obtain ⟨h, hh, -⟩ := horders o ho
      rw [horder] at hh
      cases hh
    exact ⟨a', d₁, w₂, hlooks.bind (hyields.bind (.of_follows? (hnotes _))), hsite₂, hnone, hgone,
      nofun⟩
  | some order =>
    have hanswer := a'.answer_release w₂.wall.next order fun o ho => by
      obtain ⟨h, hh, hid⟩ := horders o ho
      rw [horder] at hh
      cases hh
      exact hid
    have hreleases := World.follow?_authority hsite₂.authority hanswer
    refine ⟨{ a' with orders := [] }, d₁, _, hlooks.bind (hyields.bind (.of_follows?
      ((hnotes _).trans (World.follows?_bind_of ((World.follows?_perform _).trans hreleases))))),
      hsite₂.told _, rfl, hgone, fun _ => ?_⟩
    rw [World.wall_told, hwall, hwall₁]

end Leavings

/-! ### The whole run -/

/-- What a run over the development authority comes to, when the wall clock was read last then. -/
structure Trial.Verdict (settings : IssuanceSettings) (a : DevelopmentAuthority) (domain : String)
    (names : List String) (last : Instant) (result : Except IssuanceError IssuedCertificate) :
    Prop where
  /-- There is a certificate unless something is in the way, and unless it runs out on the way. -/
  issues : (∀ signed : Instant, signed.next.next.next.next = last → a.IsGood signed last) →
    (result.isOk ↔ Unhindered settings a names)
  /-- Then all states were visited, and its names are those that were asked for. -/
  report : ∀ c, result = .ok c →
    c.report.visited = IssuanceState.all.take 8 ∧ c.names = names
  /-- If only a name is in the way, the first such name is blamed. -/
  rejected : a.failingCalls ≤ settings.callRetries →
    settings.validation.lasts a.validationPolls = true →
    ∀ n, names.find? (a.rejected.contains ·) = some n →
      ∃ stage reason, result = .error (.failed domain stage (.authorizationRejected n reason))

/-- No order is open, and no record is left that was not there before. -/
structure Trial.Cleared (d : MemoryDns) (w : World) : Prop where
  orders : ∃ a, w.authority = .development a ∧ a.orders = []
  records : ∃ d', w.dns = .memory d' ∧ d'.entries ⊆ d.entries

namespace Trial

variable {q : RenewalPractice} {a : DevelopmentAuthority} {d : MemoryDns} {w : World}
variable {locks : MutexTable String Unit} {names : List String} {key : KeyPair}
variable {r : CertificateRequest}

/-- A run that holds its domain. -/
theorem returns_issueHeld (t : Trial q a d) (h : Site locks a d w) (hnames : OrderedNames names)
    (hcount : names.length < 2 ^ 57) (hserved : ∀ n ∈ names, d.supports (Domain.base n) = true)
    (hkey : key.IsMade)
    (hr : CertificateRequest.ofNames names key = .ok r)
    (hread : CertificateRequest.ofBytes? (r.toDer key).write = some r) (domain : String) :
    Returns q.program false (issueHeld q.issuance domain names (r.toDer key).write key) w
      fun result w' => (∃ a' d', Site locks a' d' w' ∧ a'.orders = [] ∧ d'.entries ⊆ d.entries) ∧
        Verdict q.issuance.settings a domain names w'.wall result := by
  obtain ⟨root, hroot⟩ := t.root
  have hdrive := t.comes_drive h hnames hcount hserved hread
  have hnow (w : World) : w.follows? (perform .now) = some (w.clock, w) :=
    World.follows?_perform _
  have hwatched : Gets q.program false (driveWatched q.issuance names (r.toDer key).write) w true
      _ := Gets.watch_bind hdrive
  refine .of_follows?_bind (hnow w) (.of_gets_bind hwatched ?_)
  rintro ⟨result, s⟩ w₁ hresult
  refine .unwatch_bind ?_
  cases result with
  | error e =>
    obtain ⟨hleavings, hhindered⟩ := hresult
    obtain ⟨a', d', w₂, hcleans, hsite, horders, hentries, -⟩ :=
      hleavings.yields_cleanUp (q := q) t.deletes
    refine .of_yields (hcleans.bind (.bind (.of_follows? (hnow w₂)) (.of_follows?
      (?_ : World.follows? _ w₂ = some (.error (.failed domain s.machine.state e), w₂)))))
      ⟨⟨a', d', hsite, horders, hentries⟩, fun _ => ⟨fun hok => ?_, fun hfree => ?_⟩,
        fun c hc => ?_, fun hcalls hpolls n hn => ?_⟩
    · cases e with
      | cancelled => exact absurd rfl hhindered.ne
      | _ => rfl
    · exact absurd hok Bool.false_ne_true
    · exact absurd hfree hhindered.hindered
    · cases hc
    · obtain ⟨m, hm, rfl⟩ := hhindered.rejected hcalls hpolls
      obtain rfl := Option.some.inj (hm.symm.trans hn)
      exact ⟨_, _, rfl⟩
  | ok chain =>
    obtain ⟨hleavings, hfree, hmachine, hplaced, a', signed, halike, rfl, hwall⟩ := hresult
    obtain ⟨a'', d', w₂, hcleans, hsite, horders, hentries, hreleased⟩ :=
      hleavings.yields_cleanUp (q := q) t.deletes
    let last := w₂.wall.next
    have hlast : signed.next.next.next.next = last := by
      rw [← hwall, ← hreleased hplaced]
    have hreads : w₂.follows? (perform .wallClock) = some (last, { w₂ with wall := last }) := by
      rw [World.follows?_perform, World.follow?, World.readClock_eq]
    have hsite' : Site locks a'' d' { w₂ with wall := last } :=
      ⟨hsite.authority, hsite.ledger.congr hsite.ledger.dns rfl rfl rfl, hsite.whole, hsite.locks⟩
    refine .of_yields (hcleans.bind (.bind (.of_follows? (hnow w₂)) (.bind (.of_follows? hreads)
      (.of_follows? rfl)))) ⟨⟨a'', d', hsite', horders, hentries⟩, fun hgood => ?_,
        fun c hc => ?_, fun hcalls hpolls n hn => ?_⟩
    · have hgood : a'.IsGood signed last := by
        obtain ⟨hbefore, hafter, hlasts⟩ := hgood signed hlast
        exact ⟨hbefore, halike.lifetime ▸ hafter, halike.lifetime ▸ hlasts⟩
      rw [DevelopmentAuthority.materialOf_chainFor (halike.rootPem.trans hroot) hkey hnames
        (by omega) hr hgood]
      exact ⟨fun _ => hfree, fun _ => rfl⟩
    · cases hmaterial : materialOf (a'.chainFor signed r) key last with
      | error e =>
        rw [hmaterial] at hc
        cases hc
      | ok material =>
        rw [hmaterial] at hc
        cases hc
        change s.machine.visited = _ ∧ _
        rw [show s.machine = _ from hmachine]
        exact ⟨rfl, rfl⟩
    · exact absurd (List.contains_iff_mem.mp (List.find?_some hn))
        (hfree.accepted n (List.mem_of_find?_eq_some hn))

end Trial

/-! ### The domain of a run -/

section Domain

variable {program : Job → Steward Outcome} {w : World}

/-- A domain that nobody holds is held at once. -/
theorem gets_lockDomain (h : w.locks.Rests) (domain : String) (mode : LockMode) :
    Gets program false (lockDomain domain mode) w false fun x w' => ∃ c locks,
      x = .ok c ∧ w' = { w with locks } ∧ locks.line c = [] := by
  let c := (w.locks.obtain domain ()).1
  let obtained : World := { w with locks := (w.locks.obtain domain ()).2 }
  have hobtains : w.follows? (lockStep (.obtain domain)) = some (c, obtained) :=
    World.follows?_perform _
  have hfree : obtained.locks.isHeld c = false := MutexTable.isHeld_obtain.trans h.isHeld
  have hline : obtained.locks.line c = [] := MutexTable.line_obtain.trans h.line
  cases mode with
  | wait =>
    let held : World := { obtained with locks := (obtained.locks.enter c 0).2 }
    have hwaits : obtained.follows? (perform (.wait (.lock c))) = some (some (), held) := by
      rw [World.follows?_perform, World.follow?, hfree]
      rfl
    have hgoes : held.locks.line c = [] := by
      rw [MutexTable.line_enter, hfree, if_neg (fun h => Bool.false_ne_true h.2)]
      exact hline
    refine .watch_bind (.of_follows?_bind hobtains (.of_follows?_bind hwaits (.bind (.unwatch
      (Q := fun _ w' => w' = held) rfl) ?_)))
    rintro _ _ rfl
    exact .pure ⟨c, held.locks, rfl, rfl, hgoes⟩
  | skip =>
    let held : World := { obtained with locks := (obtained.locks.tryEnter c).2 }
    have htries : obtained.follows? (lockStep (.tryEnter c)) = some (true, held) := by
      have hgets : obtained.locks.tryEnter c = (true, held.locks) := by
        change _ = (true, (obtained.locks.tryEnter c).2)
        rw [MutexTable.tryEnter, hfree]
        rfl
      refine (World.follows?_perform _).trans ?_
      rw [World.follow?, MutexTable.apply, hgets]
    have hgoes : held.locks.line c = [] := MutexTable.line_tryEnter.trans hline
    have hlocks : w.follows? (tryDomain domain) = some (some c, held) := by
      rw [tryDomain, World.follows?_bind_of hobtains, World.follows?_bind_of htries]
      rfl
    exact .of_follows?_bind hlocks (.pure ⟨c, held.locks, rfl, rfl, hgoes⟩)

variable (program) in
/-- A domain for which nobody waits is let go. -/
theorem yields_unlockDomain {c : Nat} (h : w.locks.line c = []) (domain : String) :
    ∃ locks, Yields program (unlockDomain domain c) w () { w with locks } := by
  have hleaves : w.follows? (lockStep (.leave c)) =
      some ((), { w with locks := (w.locks.leave c).2 }) := by
    refine (World.follows?_perform _).trans ?_
    rw [World.follow?, MutexTable.apply, MutexTable.leave_of_nil h]
  exact ⟨_, .bind (.of_follows? hleaves) (.bind (.of_follows? (World.follows?_perform _))
    (.of_follows? (World.follows?_perform _)))⟩

end Domain

namespace Trial

variable {q : RenewalPractice} {a : DevelopmentAuthority} {d : MemoryDns} {m : Machine}
variable {r n : IssuanceRequest}

theorem exists_key (t : Trial q a d) (fresh : List UInt8) :
    ∃ key, KeyPair.make q.issuance.settings.key fresh = .ok key := by
  cases hspec : q.issuance.settings.key with
  | rsa bits => exact ⟨_, if_pos (t.key bits hspec)⟩
  | ecdsaP256 => exact ⟨_, rfl⟩

/-- **Runs over the development authority.** A run for a request that normalizes comes to an end.
It has a certificate then unless more failures were injected than calls are tried again, the names
stay pending for longer than there are delays, or one of the names is rejected; and if only a name
is in the way, the first of them is blamed. Whatever comes of it, no record and no order is left. -/
theorem run_issueCertificate (t : Trial q a d) (hm : m.IsIdle) (hlive : m.runs + 1 ∉ m.cancelled)
    (hprogram : m.program = q.program) (hsite : Site m.world.locks a d m.world)
    (hlocks : m.world.locks.Rests) (hr : r.normal = .ok n) (hcount : n.others.length < 2 ^ 56)
    (hserved : ∀ x ∈ n.primary :: n.others, d.supports (Domain.base x) = true) (mode : LockMode) :
    ∃ key names request result m',
      n.signed (KeyPair.make q.issuance.settings.key m.world.drawBytes.1) =
        .ok (key, names, request) ∧
      m.run (issueCertificate q.issuance r mode) = (some result, m') ∧
      Cleared d m'.world ∧
      Verdict q.issuance.settings a n.primary names m'.world.wall result := by
  obtain ⟨key, hkey⟩ := t.exists_key m.world.drawBytes.1
  have hmade := KeyPair.isMade_of_make hkey
  obtain ⟨names, request, hnames, hsigned, hrequest, hread⟩ :=
    IssuanceRequest.exists_signed hr hmade hcount
  have hordered := IssuanceRequest.orderedNames hr hnames
  have hfew : names.length < 2 ^ 57 :=
    Nat.lt_of_le_of_lt (IssuanceRequest.length_names_le hr hnames) (by omega)
  have hbases : ∀ x ∈ names, d.supports (Domain.base x) = true := by
    intro x hx
    obtain ⟨y, hy, hbase⟩ := IssuanceRequest.exists_base_eq hr hnames hx
    exact hbase ▸ hserved y hy
  let drawn : World := m.world.drawBytes.2
  have hdraws : m.world.follows? (perform (.freshKey q.issuance.settings.key)) =
      some (.ok key, drawn) := by
    rw [World.follows?_perform, World.follow?, hkey]
  have hdrawn : Site m.world.locks a d drawn :=
    ⟨hsite.authority, hsite.ledger.congr hsite.ledger.dns rfl rfl rfl, hsite.whole, rfl⟩
  have hreturns : Returns m.program false (issueCertificate q.issuance r mode) m.world
      fun result w' => Cleared d w' ∧
        Verdict q.issuance.settings a n.primary names w'.wall result := by
    rw [issueCertificate, hr, hprogram]
    refine .of_follows?_bind hdraws ?_
    rw [hsigned]
    refine .of_gets_bind (gets_lockDomain (w := drawn) hlocks n.primary mode) ?_
    rintro _ _ ⟨c, locks, rfl, rfl, hline⟩
    have hheld : Site locks a d { drawn with locks } :=
      ⟨hdrawn.authority, hdrawn.ledger.congr hdrawn.ledger.dns rfl rfl rfl, hdrawn.whole, rfl⟩
    refine (t.returns_issueHeld hheld hordered hfew hbases hmade hrequest hread
      n.primary).bind_yields fun result w' hends => ?_
    obtain ⟨⟨a', d', hsite', horders, hentries⟩, hverdict⟩ := hends
    obtain ⟨left, hleaves⟩ := yields_unlockDomain q.program (c := c)
      (by rw [hsite'.locks]; exact hline) n.primary
    exact ⟨result, { w' with locks := left }, hleaves.bind (.of_follows? rfl),
      ⟨⟨a', hsite'.authority, horders⟩, ⟨d', hsite'.ledger.dns, hentries⟩⟩, hverdict⟩
  obtain ⟨m', result, hrun, -, ⟨hcleared, hverdict⟩, -⟩ := Machine.run_of_returns hm hlive hreturns
  exact ⟨key, names, _, result, m', by rw [hkey]; exact hsigned, hrun, hcleared, hverdict⟩

/-- An authority that fails three times, keeps names pending for two looks and rejects a name. -/
def strict : DevelopmentAuthority :=
  { DevelopmentAuthority.make ⟨.ecdsaP256, []⟩ ⟨1767225600, 0⟩ with
    rejected := ["*.example.com"], validationPolls := 2, failingCalls := 3 }

/-- The service at its start, with this authority and with records in memory. -/
def atStart : Machine where
  world := { wall := ⟨1767225600, 0⟩, seed := [], authority := .development strict }
  program := RenewalPractice.program {}

/-- A run for a domain and its wildcard. -/
theorem run_issueCertificate_wildcard : ∃ key names request result m',
    IssuanceRequest.signed { primary := "example.com", wildcard := true }
      (KeyPair.make (.rsa 2048) atStart.world.drawBytes.1) = .ok (key, names, request) ∧
    atStart.run (issueCertificate {} { primary := " Example.COM.", wildcard := true } .skip) =
      (some result, m') ∧
    Cleared {} m'.world ∧ Verdict {} strict "example.com" names m'.world.wall result := by
  have htrial : Trial {} strict {} :=
    ⟨rfl, rfl, rfl, rfl, by decide, ⟨_, rfl⟩, fun _ h => KeySpec.rsa.inj h ▸ rfl, ⟨rfl, rfl⟩, rfl⟩
  have hsite : Site atStart.world.locks strict {} atStart.world :=
    ⟨rfl, RecordHistory.ledger_start rfl rfl rfl, Nat.dvd_zero _, rfl⟩
  have hnormal : IssuanceRequest.normal { primary := " Example.COM.", wildcard := true } =
      .ok { primary := "example.com", wildcard := true } := rfl
  exact run_issueCertificate htrial RecordHistory.isIdle_start List.not_mem_nil rfl hsite
    MutexTable.rests_empty hnormal (by decide) (fun _ _ => rfl) .skip

end Trial

end CertSteward
