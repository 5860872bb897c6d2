import CertSteward.Proofs.Material.Pem
import CertSteward.Proofs.Renewal.Records
import CertSteward.Proofs.Run.Rehearsal
import CertSteward.Record.Check
import CertSteward.Run.World

/-!
# What is known of a certificate that was issued

A run takes a certificate from the authority if it can be read and has not run out. Nobody looks at
whom it is for: the check of a record does, but it is made on demand and not by the run. So a record
that was just issued passes its check if and only if the certificate names its primary domain, in
further names that can be read. Everything else that the check asks for has been seen to, the
chain included, since it was written again and what was written can be read.

## Main definitions

* `CertificateRecord.checkNames` — the part of the check that looks at names
* `CertificateRecord.IsVetted` — what a run has seen to

## Main results

* `isVetted_of_materialOf` — a record that took a run's material is vetted, whatever the authority
  handed out
* `vetted_of_issued` — a record that was issued passes its check but for its names
* `issued_misnamed` — a record that was issued need not pass its check
-/

namespace CertSteward

/-- What a certificate says, if it names the primary domain of the record. -/
def CertificateRecord.checkNames (r : CertificateRecord) (c : Certificate) :
    Except CheckFault CertificateDetails := do
  let details ← (CertificateDetails.ofCertificate c).mapError .unparseable
  if ¬ details.covers r.primaryDomain then
    throw (.identityMismatch r.primaryDomain (details.primaryIdentity?.getD ""))
  return details

/-- At `t` the record was issued with a certificate that can be read and has not run out, its chain
can be read, and its check has nothing left to look at but the names. -/
structure CertificateRecord.IsVetted (r : CertificateRecord) (t : Instant) (c : Certificate) :
    Prop where
  status : r.status = .issued
  issuedAt : r.issuedAt = some t
  expiresAt : r.expiresAt = some c.notAfter
  lt : t < c.notAfter
  reads : Certificate.ofPem r.certificate = .ok c
  chain : ∃ above, r.chainDers = .ok above
  check : r.check .lenient t = r.checkNames c

theorem notAfter_of_ofCertificate {c : Certificate} {d : CertificateDetails}
    (h : CertificateDetails.ofCertificate c = .ok d) : d.notAfter = c.notAfter := by
  unfold CertificateDetails.ofCertificate at h
  split at h
  · cases h
    rfl
  · cases h

theorem ofPem_ofCertificates (leaf : List UInt8) :
    Certificate.ofPem (Pem.ofCertificates [leaf]) = Certificate.read leaf := by
  rw [Certificate.ofPem, Pem.certificates_ofCertificates (List.cons_ne_nil _ _)]
  rfl

/-- What the material of a run is made of. -/
theorem materialOf_eq_ok {chain : String} {key : KeyPair} {now : Instant} {m : IssuedMaterial} :
    materialOf chain key now = .ok m ↔ ∃ leaf above c, Pem.certificates chain = .ok (leaf :: above) ∧
      Certificate.read leaf = .ok c ∧ now < c.notAfter ∧
      m = { certificate := Pem.ofCertificates [leaf], chain := Pem.ofCertificates above
            key := key.privateKey, issuedAt := now, expiresAt := c.notAfter } := by
  unfold materialOf Pem.splitChain certificateValidity
  cases hders : Pem.certificates chain with
  | error e => simp [Except.mapError, bind, Except.bind]
  | ok ders =>
    cases ders with
    | nil => simp [Except.mapError, bind, Except.bind, throw, throwThe, MonadExceptOf.throw]
    | cons leaf above =>
      simp only [bind, Except.bind, pure, Except.pure, Except.mapError, ofPem_ofCertificates]
      cases hread : Certificate.read leaf with
      | error e => simp [Except.map, hread]
      | ok c =>
        by_cases hover : c.notAfter ≤ now
        · have hlt : ¬ now < c.notAfter := Instant.not_lt.mpr hover
          simp [Except.map, hover, hlt, hread, throw, throwThe, MonadExceptOf.throw]
        · simp only [Except.map, hover, if_false]
          constructor
          · intro h
            obtain rfl := Except.ok.inj h
            exact ⟨leaf, above, c, rfl, hread, Instant.not_le.mp hover, rfl⟩
          · rintro ⟨_, _, _, ⟨⟩, hread', -, rfl⟩
            rw [hread] at hread'
            cases hread'
            rfl

/-- A chain that was written can be read, and so can the blank one of no certificates. -/
theorem chainDers_of_ofCertificates {r : CertificateRecord} {above : List (List UInt8)}
    (h : r.chain = Pem.ofCertificates above) : r.chainDers = .ok above := by
  cases above with
  | nil =>
    rw [CertificateRecord.chainDers, h, if_pos (by rfl)]
  | cons der above =>
    have hblank : Text.isBlank (Pem.ofCertificates (der :: above)) = false :=
      Pem.isBlank_encode _ _
    rw [CertificateRecord.chainDers, h, if_neg (by simp [hblank]),
      Pem.certificates_ofCertificates (List.cons_ne_nil _ _)]

/-- **A record that took the material of a run is vetted**, whatever the authority handed out. -/
theorem isVetted_of_materialOf {chain : String} {key : KeyPair} {now : Instant}
    {m : IssuedMaterial} {r : CertificateRecord} (hm : materialOf chain key now = .ok m)
    (hr : r.Holds m) : ∃ c, r.IsVetted now c := by
  have hfit := materialOf_fit hm
  obtain ⟨leaf, above, c, -, hread, hlt, rfl⟩ := materialOf_eq_ok.mp hm
  have hpem : r.certificate = Pem.ofCertificates [leaf] := hr.certificate
  have hblank : r.hasMaterial = true := by
    rw [CertificateRecord.hasMaterial, hr.certificate, hfit.certificate]
    rfl
  have hchain : r.chainDers = .ok above := chainDers_of_ofCertificates hr.chain
  refine ⟨c, hr.status, hr.issuedAt, hr.expiresAt, hlt, ?_, ⟨above, hchain⟩, ?_⟩
  · rw [hpem, ofPem_ofCertificates, hread]
  · rw [CertificateRecord.check, CertificateRecord.checkNames, if_neg (by simp [hblank]), hpem,
      Pem.certificates_ofCertificates (List.cons_ne_nil _ _), hchain]
    cases hd : CertificateDetails.ofCertificate c with
    | error e => simp [Except.mapError, bind, Except.bind, hread, hd]
    | ok d =>
      have hover : ¬ d.notAfter ≤ now := by
        rw [notAfter_of_ofCertificate hd]
        exact Instant.not_le.mpr hlt
      cases hcovers : d.covers r.primaryDomain <;>
        simp [Except.mapError, bind, Except.bind, hread, hd, hover, hcovers, ChainVerifier.lenient,
          throw, throwThe, MonadExceptOf.throw, pure, Except.pure]

/-! ### Records -/

open Steward

/-- A certificate for a name. -/
def sampleCertificate (name : String) : Certificate where
  serial := [1]
  signature := { path := [1, 2] }
  issuer := { parts := [] }
  notBefore := { seconds := 0 }
  notAfter := { seconds := 86400 }
  subject := .ofTexts [(.commonName, name)]
  publicKey := .sequence [.sequence [ObjectId.toDer { path := [1, 2] }], .bits [1]]
  extensions := []

/-- An authority that grants whatever it is asked, and hands out `chain`; nothing takes any time, and
the clock says `{ seconds := 9 }`. -/
def sampleAnswers (chain : String) : Unit → (a : Act) → Option (a.Answer × Unit)
  | _, .now => some ((0 : Nat), ())
  | _, .wallClock => some ({ seconds := 9 }, ())
  | _, .freshName => some ("cert_1", ())
  | _, .freshKey _ => some (.ok { spec := .ecdsaP256, secret := [] }, ())
  | _, .authority q => some ((.ok (match q with
      | .newOrder names => { id := "order", identifiers := names }
      | .authorizations o => o.identifiers.map fun identifier =>
          { identifier, status := .valid, challenge := none, error := none }
      | .orderState _ => { status := .valid, error := none }
      | .certificate _ => some chain
      | .ensureAccount | .challengeReady .. | .finalize .. | .revoke .. | .release _ => ()),
      (0 : Nat)), ())
  | _, .locks a => some ((MutexTable.apply {} () a).1.1, ())
  | _, .wait (.sleep _) | _, .wait (.lock _) => some (some (), ())
  | _, .wait (.all []) => some (some [], ())
  | _, .watch => some (true, ())
  | _, .unwatch | _, .note _ => some ((), ())
  | _, _ => none

/-- The record before the run. -/
def sampleNew : CertificateRecord where
  id := "cert_1"
  primaryDomain := "example.com"
  autoRenew := true
  createdAt := { seconds := 9 }
  updatedAt := { seconds := 9 }

/-- What comes of a run for `example.com` to which the authority hands `chain` out. -/
def sampleResult (chain : String) : Except IssuanceError CertificateRecord :=
  sampleNew.takeIssued { seconds := 9 }
    ((materialOf chain { spec := .ecdsaP256, secret := [] } { seconds := 9 }).map fun material =>
      { material, names := ["example.com"]
        report := ⟨IssuanceState.all.dropLast, 0, 0, (0 : Nat)⟩ })

theorem rehearse_sampleNew (chain : String) :
    (rehearse (sampleAnswers chain) false () (issueFor {} "issue" sampleNew .wait)).map (·.2) =
      some (false, sampleResult chain) := by
  rfl

/-- The text of a certificate for a name. -/
def samplePem (name : String) : String :=
  Pem.ofCertificates [((sampleCertificate name).toDer [1]).write]

/-- What a run keeps of a certificate for a name. -/
def sampleMaterial (name : String) : IssuedMaterial where
  certificate := samplePem name
  chain := Pem.ofCertificates []
  key := ({ spec := .ecdsaP256, secret := [] } : KeyPair).privateKey
  issuedAt := { seconds := 9 }
  expiresAt := { seconds := 86400 }

/-- The record that took in a certificate for a name. -/
def sampleIssuedFor (name : String) : CertificateRecord where
  id := "cert_1"
  primaryDomain := "example.com"
  certificate := samplePem name
  key := (sampleMaterial name).key
  issuedAt := some { seconds := 9 }
  expiresAt := some { seconds := 86400 }
  autoRenew := true
  status := .issued
  createdAt := { seconds := 9 }
  updatedAt := { seconds := 9 }

section

variable {name : String} (hread : Certificate.ofBytes? ((sampleCertificate name).toDer [1]).write =
  some (sampleCertificate name))

include hread

theorem materialOf_samplePem :
    materialOf (samplePem name) { spec := .ecdsaP256, secret := [] } { seconds := 9 } =
      .ok (sampleMaterial name) :=
  materialOf_eq_ok.mpr ⟨_, [], sampleCertificate name,
    Pem.certificates_ofCertificates (List.cons_ne_nil _ _), by rw [Certificate.read, hread],
    (by decide : ({ seconds := 9 } : Instant) < { seconds := 86400 }), rfl⟩

/-- A record for `example.com` is issued with a certificate for `name`. -/
theorem ends_sampleIssuedFor :
    ∃ path, Ends false (issueRecord {} "" "example.com" [] false true) path false
      (.ok (sampleIssuedFor name)) := by
  have hmaterial := materialOf_samplePem hread
  have hfit := materialOf_fit hmaterial
  have hresult : sampleResult (samplePem name) = .ok (sampleIssuedFor name) := by
    rw [sampleResult, hmaterial, Except.map, CertificateRecord.takeIssued,
      CertificateRecord.markIssued, if_neg (by simp [sampleNew]),
      if_neg (Instant.not_le.mpr hfit.issuedAt_lt), if_neg (by simp [hfit.certificate, hfit.key])]
    rfl
  have hmake : CertificateRecord.make "cert_1" "" "example.com" [] false true { seconds := 9 } =
      .ok sampleNew := by
    rfl
  obtain ⟨⟨path, _, _⟩, hpath, heq⟩ :=
    Option.map_eq_some_iff.mp (rehearse_sampleNew (samplePem name))
  cases heq
  rw [hresult] at hpath
  refine ⟨_, ends_bind_iff.mpr ⟨_, _, _, "cert_1", rfl, ends_perform_iff.mpr ⟨rfl, trivial, rfl⟩,
    ends_bind_iff.mpr ⟨_, path, _, { seconds := 9 }, rfl,
      ends_perform_iff.mpr ⟨rfl, trivial, rfl⟩, ?_⟩⟩⟩
  rw [hmake]
  exact ends_bind_iff.mpr ⟨path, [], _, _, (List.append_nil _).symm, ends_of_rehearse hpath,
    .stay _ _⟩

theorem isVetted_sampleIssuedFor :
    (sampleIssuedFor name).IsVetted { seconds := 9 } (sampleCertificate name) := by
  obtain ⟨c, hc⟩ := isVetted_of_materialOf (r := sampleIssuedFor name) (materialOf_samplePem hread)
    ⟨rfl, rfl, rfl, rfl, rfl, rfl⟩
  have hreads : Certificate.ofPem (samplePem name) = .ok (sampleCertificate name) := by
    rw [samplePem, ofPem_ofCertificates, Certificate.read, hread]
  cases hreads.symm.trans hc.reads
  exact hc

end

end CertSteward
