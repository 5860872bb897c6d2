import CertSteward.Proofs.Health.Summary
import CertSteward.Proofs.Renewal.Vetting

/-!
# One expiry, read in several places

When a certificate runs out is read once, from the certificate that a run wrote for the record, and
kept beside it. From then on a summary and the note of an expiry read what was kept, while the check
of a record reads the certificate again. They agree at all times, since what was written is what is
read, and since all of them count the instant of the expiry itself as run out.

## Main definitions

* `CertificateRecord.Obtained` — a record that came of an issuance or a renewal
* `CertificateRecord.ExpiresWith` — a record that has a certificate and expires with it
* `CertificateRecord.RunsOut` — what is said of a record that runs out at an instant

## Main results

* `CertificateRecord.check_eq_expired_iff` — when a check says that a record has run out
* `HealthSummary.expired_insert` — when a summary says so
* `CertificateRecord.Obtained.expiresWith` — records expire with their certificates
* `expiry_read_alike` — all readings of an expiry agree
-/

namespace CertSteward

open Steward

variable {r : CertificateRecord} {c : Certificate} {d : CertificateDetails} {e now : Instant}
  {w : RenewalWindow} {before after : List CertificateRecord}

/-! ### Readings of any record -/

/-- A check says that a record has run out exactly if its certificate can be read and has. -/
theorem CertificateRecord.check_eq_expired_iff {verify : ChainVerifier} :
    r.check verify now = .error (.expired e) ↔ r.hasMaterial = true ∧
      ∃ d, CertificateDetails.inspect r.certificate = .ok d ∧ d.notAfter = e ∧ e ≤ now := by
  rw [check, CertificateDetails.inspect, Certificate.ofPem]
  cases r.hasMaterial with
  | false => simp [bind, Except.bind, throw, throwThe, MonadExceptOf.throw]
  | true =>
    cases Pem.certificates r.certificate with
    | error e => simp [bind, Except.bind, Except.mapError]
    | ok ders =>
      simp only [bind, Except.bind, Except.mapError]
      generalize ders.headD [] = leaf
      cases Certificate.read leaf with
      | error e => simp
      | ok c =>
        dsimp only
        cases CertificateDetails.ofCertificate c with
        | error e => simp
        | ok d =>
          simp only [throw, throwThe, MonadExceptOf.throw, pure, Except.pure]
          by_cases hover : d.notAfter ≤ now
          · simp only [hover, not_true, if_true, if_false, true_and, Except.error.injEq,
              CheckFault.expired.injEq, Except.ok.injEq, exists_eq_left']
            exact ⟨fun h => ⟨h, h ▸ hover⟩, And.left⟩
          · simp only [hover, not_true, if_false]
            refine iff_of_false ?_ ?_
            · -- whatever else is wrong, it is not the expiry
              cases d.covers r.primaryDomain with
              | false => simp
              | true =>
                cases r.chainDers with
                | error e => simp
                | ok above => cases h : verify leaf above <;> simp [h]
            · rintro ⟨-, _, ⟨⟩, rfl, hle⟩
              exact hover hle

/-- A summary needs an end of the window as soon as it is of a record that has an expiry. -/
theorem HealthSummary.isSome_of?_insert (he : r.expiresAt.isSome) :
    (of? (before ++ r :: after) w now).isSome = (w.close? now).isSome := by
  cases hclose : w.close? now with
  | some close =>
    rw [of?_eq hclose]
    rfl
  | none =>
    have hr : CertificateHealth.of? r w now = none := by
      obtain ⟨e, he⟩ := Option.isSome_iff_exists.mp he
      simp [CertificateHealth.of?, CertificateRecord.needsRenewal?, RenewalWindow.needsRenewal?, he,
        hclose]
    simp [of?, List.mapM_append, hr]

/-- A summary counts one more as run out with a record that has, and no more with one that has not. -/
theorem HealthSummary.expired_insert (r : CertificateRecord) (before after : List CertificateRecord)
    {close : Instant} (hclose : w.close? now = some close) :
    ∃ without with', of? (before ++ after) w now = some without ∧
      of? (before ++ r :: after) w now = some with' ∧
      with'.expired = without.expired + if r.expiresBy now then 1 else 0 := by
  refine ⟨_, _, of?_eq hclose, of?_eq hclose, ?_⟩
  simp only [List.map_append, List.map_cons, List.countP_append, List.countP_cons,
    CertificateHealth.isExpired_entry]
  exact (Nat.add_assoc _ _ _).symm

/-- An issued record is marked exactly if its expiry has come. -/
theorem CertificateRecord.status_markExpiredIfDue_iff (hr : r.status = .issued) {clock : Instant} :
    (r.markExpiredIfDue now clock).status = .expired ↔ r.expiresBy now = true := by
  have hover : r.isOver now = r.expiresBy now := by
    rw [isOver, hr]
    rfl
  rw [markExpiredIfDue, hover]
  cases r.expiresBy now with
  | false => simp [hr]
  | true => simp [touch]

/-! ### Records with their certificates -/

/-- A record has an issued certificate that can be read, and the expiry kept is that of the
certificate. -/
structure CertificateRecord.ExpiresWith (r : CertificateRecord) (c : Certificate) : Prop where
  status : r.status = .issued
  hasMaterial : r.hasMaterial = true
  reads : Certificate.ofPem r.certificate = .ok c
  expiresAt : r.expiresAt = some c.notAfter

/-- What is said at `now` of a record that runs out at `e`. -/
structure CertificateRecord.RunsOut (r : CertificateRecord) (e : Instant) (verify : ChainVerifier)
    (now : Instant) : Prop where
  /-- A check says that the record has run out exactly from that instant on. -/
  check : (∃ e', r.check verify now = .error (.expired e')) ↔ e ≤ now
  /-- A check that says so names that instant. -/
  named : ∀ e', r.check verify now = .error (.expired e') → e' = e
  /-- There is a summary of the record and of others exactly if the window has an end. -/
  summarized : ∀ w before after, (HealthSummary.of? (before ++ r :: after) w now).isSome =
    (w.close? now).isSome
  /-- A summary counts the record as run out exactly from that instant on. -/
  counted : ∀ w before after with', HealthSummary.of? (before ++ r :: after) w now = some with' →
    ∃ without, HealthSummary.of? (before ++ after) w now = some without ∧
      with'.expired = without.expired + if e ≤ now then 1 else 0
  /-- The record is marked exactly from that instant on. -/
  marked : ∀ clock, (r.markExpiredIfDue now clock).status = .expired ↔ e ≤ now

namespace CertificateRecord.ExpiresWith

theorem of_materialOf {chain : String} {key : KeyPair} {m : IssuedMaterial}
    (hm : materialOf chain key now = .ok m) (hr : r.Holds m) : ∃ c, r.ExpiresWith c := by
  obtain ⟨c, hc⟩ := isVetted_of_materialOf hm hr
  refine ⟨c, hc.status, ?_, hc.reads, hc.expiresAt⟩
  rw [CertificateRecord.hasMaterial, hr.certificate, (materialOf_fit hm).certificate]
  rfl

theorem validity (h : r.ExpiresWith c) :
    certificateValidity r.certificate = .ok (c.notBefore, c.notAfter) := by
  rw [certificateValidity, h.reads]
  rfl

theorem notAfter_of_inspect (h : r.ExpiresWith c)
    (hd : CertificateDetails.inspect r.certificate = .ok d) : d.notAfter = c.notAfter := by
  rw [CertificateDetails.inspect, h.reads] at hd
  exact notAfter_of_ofCertificate hd

theorem expiresBy_iff (h : r.ExpiresWith c) : r.expiresBy now = true ↔ c.notAfter ≤ now := by
  rw [CertificateRecord.expiresBy_iff, h.expiresAt]
  simp

/-- A record that expires with its certificate runs out then, as far as its names can be read. -/
theorem runsOut (h : r.ExpiresWith c) (hd : CertificateDetails.inspect r.certificate = .ok d)
    (verify : ChainVerifier) (now : Instant) : r.RunsOut c.notAfter verify now where
  check := by
    constructor
    · rintro ⟨e, he⟩
      obtain ⟨-, d', hd', rfl, hle⟩ := check_eq_expired_iff.mp he
      rwa [← h.notAfter_of_inspect hd']
    · intro hle
      exact ⟨_, check_eq_expired_iff.mpr ⟨h.hasMaterial, d, hd, h.notAfter_of_inspect hd, hle⟩⟩
  named e he := by
    obtain ⟨-, d', hd', rfl, -⟩ := check_eq_expired_iff.mp he
    exact h.notAfter_of_inspect hd'
  summarized w before after := HealthSummary.isSome_of?_insert (by rw [h.expiresAt]; rfl)
  counted w before after with' hwith := by
    have hsome : (HealthSummary.of? (before ++ r :: after) w now).isSome = (w.close? now).isSome :=
      HealthSummary.isSome_of?_insert (by rw [h.expiresAt]; rfl)
    rw [hwith] at hsome
    obtain ⟨close, hclose⟩ := Option.isSome_iff_exists.mp hsome.symm
    obtain ⟨without, _, hwithout, hwith', hcount⟩ :=
      HealthSummary.expired_insert r before after hclose
    cases hwith.symm.trans hwith'
    exact ⟨without, hwithout, by simp only [hcount, h.expiresBy_iff]⟩
  marked clock := (status_markExpiredIfDue_iff h.status).trans h.expiresBy_iff

end CertificateRecord.ExpiresWith

/-! ### Issuances and renewals -/

/-- The records that came of issuances and renewals. A renewal that finds nothing due gives back a
record that came of one before. -/
inductive CertificateRecord.Obtained : CertificateRecord → Prop
  | issued {p : IssuancePractice} {domainId primary : String} {others : List String}
    {wildcard autoRenew b : Bool} {path : List Happening} {s : CertificateRecord}
    (ends : Ends false (issueRecord p domainId primary others wildcard autoRenew) path b (.ok s)) :
    Obtained s
  | renewed {p : IssuancePractice} {window : RenewalWindow} {r s : CertificateRecord}
    {o : RenewOptions} {b : Bool} {path : List Happening}
    (ends : Ends false (renewRecord p window r o) path b (.ok (.renewed s))) : Obtained s
  | notDue {p : IssuancePractice} {window : RenewalWindow} {r s : CertificateRecord}
    {o : RenewOptions} {b : Bool} {path : List Happening} (obtained : Obtained r)
    (ends : Ends false (renewRecord p window r o) path b (.ok (.notDue s))) : Obtained s

/-- What a run issued expires with its certificate. -/
theorem expiresWith_of_issued {p : IssuancePractice} {request : IssuanceRequest} {mode : LockMode}
    {run : List Happening} {b b' : Bool} {issued : IssuedCertificate}
    (hrun : Ends b (issueCertificate p request mode) run b' (.ok issued))
    (hr : r.Holds issued.material) : ∃ c, r.ExpiresWith c := by
  obtain ⟨chain, key, now, hm⟩ := issueCertificate_material p request mode _ run _ _ hrun issued rfl
  exact CertificateRecord.ExpiresWith.of_materialOf hm hr

/-- Records expire with their certificates, whatever the authority handed out. -/
theorem CertificateRecord.Obtained.expiresWith (h : r.Obtained) : ∃ c, r.ExpiresWith c := by
  induction h with
  | issued ends =>
    have hafter := ends_issueRecord ends
    cases hafter with
    | issued _ hrun hholds _ => exact expiresWith_of_issued hrun hholds
  | renewed ends =>
    obtain ⟨_, hafter⟩ := ends_renewRecord ends
    cases hafter with
    | renewed _ _ hrun hholds _ => exact expiresWith_of_issued hrun hholds
  | notDue _ ends ih =>
    -- nothing was done, and the record is the one before
    obtain ⟨_, hafter⟩ := ends_renewRecord ends
    cases hafter with
    | notDue _ _ _ => exact ih

/-- **The expiry of a record is read alike everywhere**, whatever the authority handed out. It is the
end of the validity of the certificate that the record has, and if the certificate can be looked
into, then at all times a check, a summary and the mark say the same of it. -/
theorem expiry_read_alike (h : r.Obtained) : ∃ c : Certificate,
    r.status = .issued ∧ r.expiresAt = some c.notAfter ∧
      certificateValidity r.certificate = .ok (c.notBefore, c.notAfter) ∧
      ∀ d, CertificateDetails.inspect r.certificate = .ok d →
        d.notAfter = c.notAfter ∧ ∀ verify now, r.RunsOut c.notAfter verify now := by
  obtain ⟨c, hc⟩ := h.expiresWith
  exact ⟨c, hc.status, hc.expiresAt, hc.validity, fun d hd =>
    ⟨hc.notAfter_of_inspect hd, hc.runsOut hd⟩⟩

/-- A record that was just issued runs out a day into 1970, when its certificate does. -/
theorem expiry_read_alike_sampleIssuedFor :
    (sampleIssuedFor "example.com").Obtained ∧ ∃ c : Certificate,
      (sampleIssuedFor "example.com").expiresAt = some c.notAfter ∧
      ∃ d, CertificateDetails.inspect (sampleIssuedFor "example.com").certificate = .ok d ∧
        d.notAfter = c.notAfter ∧ (∀ verify now, (sampleIssuedFor "example.com").RunsOut
          { seconds := 86400 } verify now) := by
  have hread : Certificate.ofBytes? ((sampleCertificate "example.com").toDer [1]).write =
      some (sampleCertificate "example.com") := by
    decide +kernel
  obtain ⟨path, hpath⟩ := ends_sampleIssuedFor hread
  have hobtained : (sampleIssuedFor "example.com").Obtained := .issued hpath
  obtain ⟨d, hd⟩ : ∃ d, CertificateDetails.inspect (sampleIssuedFor "example.com").certificate =
      .ok d := by
    rw [CertificateDetails.inspect, (isVetted_sampleIssuedFor hread).reads]
    exact ⟨_, rfl⟩
  obtain ⟨c, -, hexpiry, -, hlook⟩ := expiry_read_alike hobtained
  obtain ⟨hnotAfter, hruns⟩ := hlook d hd
  have hend : ({ seconds := 86400 } : Instant) = c.notAfter := Option.some.inj hexpiry
  rw [← hend] at hruns
  exact ⟨hobtained, c, hexpiry, d, hd, hnotAfter, hruns⟩

end CertSteward
