import CertSteward.Proofs.Issuance.Conclusion
import CertSteward.Proofs.Material.Issued
import CertSteward.Proofs.Record.Lifecycle
import CertSteward.Renewal.Manage

/-!
# What issuances and renewals make of records

A record is in service while it is renewed, so it must not be half changed. A run that ends with a
certificate puts it in, and that is never refused; a failure that rules the certificate out erases
all material; after anything else the record is the one from before. Everything is said of every
path through the program, so of every answer of the authority and every interruption.

## Main definitions

* `CertificateRecord.Holds`, `CertificateRecord.Erased` — material as it was issued, and none
* `AfterRenewal` — what a renewal comes to
* `AfterIssuance` — what a first issuance comes to

## Main results

* `markIssued_of_fit` — fit material is refused by revoked records only
* `ends_renewRecord`, `ends_issueRecord` — every end of a renewal and of a first issuance
-/

namespace CertSteward

namespace CertificateRecord

/-- A record has material as it was issued. -/
structure Holds (s : CertificateRecord) (m : IssuedMaterial) : Prop where
  status : s.status = .issued
  certificate : s.certificate = m.certificate
  chain : s.chain = m.chain
  key : s.key = m.key
  issuedAt : s.issuedAt = some m.issuedAt
  expiresAt : s.expiresAt = some m.expiresAt

/-- A record has failed and has no material left. -/
structure Erased (s : CertificateRecord) : Prop where
  status : s.status = .failed
  certificate : s.certificate = ""
  chain : s.chain = ""
  key : s.key = .none
  issuedAt : s.issuedAt = none
  expiresAt : s.expiresAt = none

/-- A record is for what it was for, and is renewed as it was. -/
structure Continues (r s : CertificateRecord) : Prop extends SameOwner r s where
  autoRenew : s.autoRenew = r.autoRenew

theorem Continues.refl (r : CertificateRecord) : Continues r r := ⟨.refl r, rfl⟩

variable {r : CertificateRecord}

/-- Only a revoked record refuses fit material. -/
theorem markIssued_of_fit (hr : r.status ≠ .revoked) {m : IssuedMaterial} (hm : m.Fit)
    (now : Instant) : ∃ s, r.markIssued m now = .ok s ∧ s.Holds m ∧ Continues r s := by
  have hdates : ¬ m.expiresAt ≤ m.issuedAt := Instant.not_le.mpr hm.issuedAt_lt
  have hmaterial : ¬ (Text.isBlank m.certificate = true ∨ m.key.isBlank = true) := by
    simp [hm.certificate, hm.key]
  refine ⟨_, by rw [markIssued, if_neg hr, if_neg hdates, if_neg hmaterial], ?_, ?_⟩
  · exact ⟨rfl, rfl, rfl, rfl, rfl, rfl⟩
  · exact ⟨⟨rfl, rfl, rfl, rfl, rfl, rfl⟩, rfl⟩

/-- Only a revoked record cannot fail. -/
theorem failedWith_of_ne (hr : r.status ≠ .revoked) (e : IssuanceError) (now : Instant) :
    (r.failedWith e now).Erased ∧ Continues r (r.failedWith e now) := by
  have h : r.failedWith e now = { r with
      certificate := "", chain := "", key := .none, issuedAt := none, expiresAt := none
      lastError := some e.message, status := .failed }.touch now := by
    rw [failedWith, markFailed, if_neg hr]
    rfl
  rw [h]
  exact ⟨⟨rfl, rfl, rfl, rfl, rfl, rfl⟩, ⟨rfl, rfl, rfl, rfl, rfl, rfl⟩, rfl⟩

end CertificateRecord

open CertificateRecord Steward

/-! ### A run for a record -/

/-- A run for a record that is not revoked is a run of its own, after which the record has the
material of the run, or there is the error of the run. -/
theorem ends_issueFor {p : IssuancePractice} {operation : String} {r : CertificateRecord}
    {mode : LockMode} {b c : Bool} {path : List Happening}
    {result : Except IssuanceError CertificateRecord} (hr : r.status ≠ .revoked)
    (h : Ends b (issueFor p operation r mode) path c result) :
    ∃ pre run post d issued, path = pre ++ run ++ post ∧
      Ends b (issueCertificate p (.ofRecord r) mode) run d issued ∧
      ((∃ m s, issued = .ok m ∧ result = .ok s ∧ s.Holds m.material ∧ Continues r s) ∨
        ∃ e, issued = .error e ∧ result = .error e) := by
  unfold issueFor at h
  obtain ⟨pre, _, _, started, rfl, hstart, h⟩ := ends_bind_iff.mp h
  obtain ⟨run, post, d, issued, rfl, hrun, h⟩ := ends_bind_iff.mp h
  obtain ⟨_, _, _, now, rfl, _, h⟩ := ends_bind_iff.mp h
  obtain ⟨_, _, _, _, rfl, _, h⟩ := ends_bind_iff.mp h
  obtain ⟨_, _, _, _, rfl, _, h⟩ := ends_bind_iff.mp h
  obtain ⟨_, _, rfl⟩ := ends_done_iff.mp h
  obtain ⟨_, _, rfl⟩ := ends_perform_iff.mp hstart
  refine ⟨pre, run, _, d, issued, by rw [List.append_assoc], hrun, ?_⟩
  cases issued with
  | error e => exact .inr ⟨e, rfl, rfl⟩
  | ok m =>
    have hfit := issueCertificate_fit p (.ofRecord r) mode _ run d (.ok m) hrun m rfl
    obtain ⟨s, hs, hholds, hsame⟩ := markIssued_of_fit hr hfit now
    exact .inl ⟨m, s, rfl, by rw [takeIssued, hs]; rfl, hholds, hsame⟩

/-! ### Renewals -/

/-- A renewal goes on: by force, without an expiry, or with one in the window. -/
def CertificateRecord.GoesOn (r : CertificateRecord) (window : RenewalWindow) (o : RenewOptions)
    (now : Instant) : Prop :=
  o.force = true ∨ r.expiresAt = none ∨ r.needsRenewal? window now = some true

/-- What the renewal of `r` comes to: its result and the record `s` that comes with it. A run on
the way ends with what it issued or with an error, and nothing else decides what becomes of the
record. -/
inductive AfterRenewal (p : IssuancePractice) (window : RenewalWindow) (r : CertificateRecord)
    (o : RenewOptions) (path : List Happening) :
    Except RecordFailure Renewal → CertificateRecord → Prop
  | revoked (detail : String) (isRevoked : r.status = .revoked) (quiet : path = []) :
    AfterRenewal p window r o path (.error { record := some r, error := .invalidInput detail }) r
  | notDue (now : Instant) (stays : ¬ r.GoesOn window o now) (quiet : path = [⟨.wallClock, now⟩]) :
    AfterRenewal p window r o path (.ok (.notDue r)) r
  | renewed {now : Instant} {pre run post : List Happening} {c : Bool} {issued : IssuedCertificate}
    {s : CertificateRecord} (goesOn : r.GoesOn window o now)
    (split : path = ⟨.wallClock, now⟩ :: pre ++ run ++ post)
    (ends : Ends false (issueCertificate p (.ofRecord r) o.lock) run c (.ok issued))
    (holds : s.Holds issued.material) (continues : Continues r s) :
    AfterRenewal p window r o path (.ok (.renewed s)) s
  | failed {now : Instant} {pre run post : List Happening} {c : Bool} {e : IssuanceError}
    {s : CertificateRecord} (goesOn : r.GoesOn window o now)
    (split : path = ⟨.wallClock, now⟩ :: pre ++ run ++ post)
    (ends : Ends false (issueCertificate p (.ofRecord r) o.lock) run c (.error e))
    (isPermanent : e.isPermanent = true) (erased : s.Erased) (continues : Continues r s) :
    AfterRenewal p window r o path (.error { record := some s, error := e }) s
  | kept {now : Instant} {pre run post : List Happening} {c : Bool} {e : IssuanceError}
    (goesOn : r.GoesOn window o now) (split : path = ⟨.wallClock, now⟩ :: pre ++ run ++ post)
    (ends : Ends false (issueCertificate p (.ofRecord r) o.lock) run c (.error e))
    (mayPass : e.isPermanent = false) :
    AfterRenewal p window r o path (.error { record := some r, error := e }) r

theorem AfterRenewal.continues {p : IssuancePractice} {window : RenewalWindow}
    {r s : CertificateRecord} {o : RenewOptions} {path : List Happening}
    {result : Except RecordFailure Renewal} (h : AfterRenewal p window r o path result s) :
    Continues r s := by
  cases h with
  | revoked | notDue | kept => exact .refl r
  | renewed _ _ _ _ continues => exact continues
  | failed _ _ _ _ _ continues => exact continues

/-- The record that comes with the result of a renewal. -/
def recordOf : Except RecordFailure Renewal → Option CertificateRecord
  | .ok renewal => some renewal.record
  | .error f => f.record

theorem AfterRenewal.recordOf_eq {p : IssuancePractice} {window : RenewalWindow}
    {r s : CertificateRecord} {o : RenewOptions} {path : List Happening}
    {result : Except RecordFailure Renewal} (h : AfterRenewal p window r o path result s) :
    recordOf result = some s := by
  cases h <;> rfl

/-- Whether to renew is decided without asking. -/
theorem ends_renewsNow {window : RenewalWindow} {r : CertificateRecord} {o : RenewOptions}
    {now : Instant} {b c : Bool} {path : List Happening} {isDue : Bool}
    (h : Ends b (renewsNow window r o now) path c isDue) :
    path = [] ∧ c = b ∧ (isDue = true ↔ r.GoesOn window o now) := by
  unfold renewsNow at h
  split at h
  · rename_i hgoes
    obtain ⟨rfl, rfl, rfl⟩ := ends_done_iff.mp h
    exact ⟨rfl, rfl, fun _ => hgoes.imp_right .inl, fun _ => rfl⟩
  · rename_i hstays
    cases hd : r.needsRenewal? window now with
    | none =>
      rw [hd] at h
      obtain ⟨answer, _⟩ := ends_ask_iff.mp h
      exact answer.elim
    | some isDue =>
      rw [hd] at h
      obtain ⟨rfl, rfl, rfl⟩ := ends_done_iff.mp h
      refine ⟨rfl, rfl, ?_, ?_⟩
      · rintro rfl
        exact .inr (.inr hd)
      · rintro (hforce | hexpiry | hdue)
        · exact absurd (.inl hforce) hstays
        · exact absurd (.inr hexpiry) hstays
        · exact Option.some.inj (hd.symm.trans hdue)

/-- **Every end of a renewal.** -/
theorem ends_renewRecord {p : IssuancePractice} {window : RenewalWindow} {r : CertificateRecord}
    {o : RenewOptions} {path : List Happening} {c : Bool} {result : Except RecordFailure Renewal}
    (h : Ends false (renewRecord p window r o) path c result) :
    ∃ s, AfterRenewal p window r o path result s := by
  unfold renewRecord at h
  by_cases hr : r.status = .revoked
  · rw [if_pos hr] at h
    obtain ⟨rfl, _, rfl⟩ := ends_done_iff.mp h
    exact ⟨r, .revoked _ hr rfl⟩
  rw [if_neg hr] at h
  obtain ⟨_, _, _, now, rfl, hnow, h⟩ := ends_bind_iff.mp h
  obtain ⟨rfl, _, rfl⟩ := ends_perform_iff.mp hnow
  obtain ⟨_, _, _, isDue, rfl, hdue, h⟩ := ends_bind_iff.mp h
  obtain ⟨rfl, rfl, hgoes⟩ := ends_renewsNow hdue
  cases isDue with
  | false =>
    obtain ⟨rfl, _, rfl⟩ := ends_done_iff.mp h
    exact ⟨r, .notDue now (fun hgo => Bool.false_ne_true (hgoes.mpr hgo)) rfl⟩
  | true =>
    obtain ⟨_, _, _, issued, rfl, hissue, h⟩ := ends_bind_iff.mp h
    obtain ⟨pre, run, post, _, _, rfl, hrun, hissued⟩ := ends_issueFor hr hissue
    obtain ⟨m, s, rfl, rfl, hholds, hsame⟩ | ⟨e, rfl, rfl⟩ := hissued
    · obtain ⟨rfl, _, rfl⟩ := ends_done_iff.mp h
      have hpath : [⟨.wallClock, now⟩] ++ ([] ++ (pre ++ run ++ post ++ [])) =
          (⟨.wallClock, now⟩ :: pre ++ run ++ post : List Happening) := by simp
      exact ⟨s, .renewed (hgoes.mp rfl) hpath hrun hholds hsame⟩
    · obtain ⟨_, _, _, after, rfl, hafter, hlast⟩ := ends_bind_iff.mp h
      obtain ⟨rfl, _, _⟩ := ends_perform_iff.mp hafter
      obtain ⟨rfl, _, rfl⟩ := ends_done_iff.mp hlast
      have hpath : [⟨.wallClock, now⟩] ++ ([] ++ (pre ++ run ++ post ++ ([⟨.wallClock, after⟩] ++ [])))
          = (⟨.wallClock, now⟩ :: pre ++ run ++ (post ++ [⟨.wallClock, after⟩]) :
            List Happening) := by simp
      cases he : e.isPermanent with
      | true =>
        obtain ⟨herased, hsame⟩ := failedWith_of_ne hr e after
        exact ⟨_, .failed (hgoes.mp rfl) hpath hrun he herased hsame⟩
      | false => exact ⟨r, .kept (hgoes.mp rfl) hpath hrun he⟩

/-! ### First issuances -/

/-- What the first issuance for a new record comes to. Without a record nothing but a name and the
time was asked for. -/
inductive AfterIssuance (p : IssuancePractice) (domainId primary : String) (others : List String)
    (wildcard autoRenew : Bool) :
    List Happening → Except RecordFailure CertificateRecord → Prop
  | rejected {id : String} {now : Instant} {e : RecordError}
    (rejects : make id domainId primary others wildcard autoRenew now = .error e) :
    AfterIssuance p domainId primary others wildcard autoRenew
      [⟨.freshName, id⟩, ⟨.wallClock, now⟩]
      (.error { record := none, error := .invalidInput e.message })
  | issued {id : String} {now : Instant} {r s : CertificateRecord} {c : Bool}
    {issued : IssuedCertificate} {pre run post : List Happening}
    (makes : make id domainId primary others wildcard autoRenew now = .ok r)
    (ends : Ends false (issueCertificate p (.ofRecord r) .wait) run c (.ok issued))
    (holds : s.Holds issued.material) (continues : Continues r s) :
    AfterIssuance p domainId primary others wildcard autoRenew
      (⟨.freshName, id⟩ :: ⟨.wallClock, now⟩ :: (pre ++ run ++ post)) (.ok s)
  | failed {id : String} {now : Instant} {r s : CertificateRecord} {c : Bool} {e : IssuanceError}
    {pre run post : List Happening}
    (makes : make id domainId primary others wildcard autoRenew now = .ok r)
    (ends : Ends false (issueCertificate p (.ofRecord r) .wait) run c (.error e))
    (erased : s.Erased) (continues : Continues r s) :
    AfterIssuance p domainId primary others wildcard autoRenew
      (⟨.freshName, id⟩ :: ⟨.wallClock, now⟩ :: (pre ++ run ++ post))
      (.error { record := some s, error := e })

theorem status_of_make {id domainId primary : String} {others : List String}
    {wildcard autoRenew : Bool} {now : Instant} {r : CertificateRecord}
    (h : make id domainId primary others wildcard autoRenew now = .ok r) : r.status = .pending := by
  unfold make at h
  cases hp : domain primary false with
  | error e => simp [hp, bind, Except.bind] at h
  | ok p =>
    cases ho : others.mapM fun name => domain name true with
    | error e => simp [hp, ho, bind, Except.bind] at h
    | ok names =>
      simp only [hp, ho, bind, Except.bind, pure, Except.pure, Except.ok.injEq] at h
      rw [← h]

/-- **Every end of a first issuance.** -/
theorem ends_issueRecord {p : IssuancePractice} {domainId primary : String} {others : List String}
    {wildcard autoRenew : Bool} {path : List Happening} {c : Bool}
    {result : Except RecordFailure CertificateRecord}
    (h : Ends false (issueRecord p domainId primary others wildcard autoRenew) path c result) :
    AfterIssuance p domainId primary others wildcard autoRenew path result := by
  unfold issueRecord at h
  obtain ⟨_, _, _, id, rfl, hid, h⟩ := ends_bind_iff.mp h
  obtain ⟨rfl, _, rfl⟩ := ends_perform_iff.mp hid
  obtain ⟨_, _, _, now, rfl, hnow, h⟩ := ends_bind_iff.mp h
  obtain ⟨rfl, _, rfl⟩ := ends_perform_iff.mp hnow
  cases hm : make id domainId primary others wildcard autoRenew now with
  | error e =>
    rw [hm] at h
    obtain ⟨rfl, _, rfl⟩ := ends_done_iff.mp h
    exact .rejected hm
  | ok r =>
    rw [hm] at h
    have hr : r.status ≠ .revoked := by
      rw [status_of_make hm]
      nofun
    obtain ⟨_, _, _, issued, rfl, hissue, hlast⟩ := ends_bind_iff.mp h
    obtain ⟨pre, run, post, _, _, rfl, hrun, hissued⟩ := ends_issueFor hr hissue
    obtain ⟨m, s, rfl, rfl, hholds, hsame⟩ | ⟨e, rfl, rfl⟩ := hissued
    · obtain ⟨rfl, _, rfl⟩ := ends_done_iff.mp hlast
      rw [List.append_nil]
      exact .issued hm hrun hholds hsame
    · obtain ⟨_, _, _, after, rfl, hafter, hend⟩ := ends_bind_iff.mp hlast
      obtain ⟨rfl, _, _⟩ := ends_perform_iff.mp hafter
      obtain ⟨rfl, _, rfl⟩ := ends_done_iff.mp hend
      obtain ⟨herased, hsame⟩ := failedWith_of_ne hr e after
      have hpath : pre ++ run ++ post ++ ([⟨.wallClock, after⟩] ++ []) =
          pre ++ run ++ (post ++ [⟨.wallClock, after⟩]) := by simp
      rw [hpath]
      exact .failed hm hrun herased hsame

/-! ### Issuances and renewals return -/

theorem neverStuck_issueCertificate (p : IssuancePractice) (r : IssuanceRequest) (mode : LockMode) :
    NeverStuck false (issueCertificate p r mode) :=
  (keeps_issueCertificate p r mode).neverStuck fun _ _ h => h.1

theorem neverStuck_issueFor (p : IssuancePractice) (operation : String) (r : CertificateRecord)
    (mode : LockMode) : NeverStuck false (issueFor p operation r mode) := by
  refine (neverStuck_perform (by nofun)).bind fun _ d started h => ?_
  obtain ⟨-, -, rfl⟩ := ends_perform_iff.mp h
  refine (neverStuck_issueCertificate p _ mode).bind fun _ _ issued _ => ?_
  refine (neverStuck_perform (by nofun)).bind fun _ _ now _ => ?_
  refine (neverStuck_perform (by nofun)).bind fun _ _ later _ => ?_
  exact (neverStuck_perform (by nofun)).bind fun _ _ _ _ => neverStuck_pure

/-- A first issuance always comes to its end. -/
theorem neverStuck_issueRecord (p : IssuancePractice) (domainId primary : String)
    (others : List String) (wildcard autoRenew : Bool) :
    NeverStuck false (issueRecord p domainId primary others wildcard autoRenew) := by
  refine (neverStuck_perform (by nofun)).bind fun _ d id h => ?_
  obtain ⟨-, -, rfl⟩ := ends_perform_iff.mp h
  refine (neverStuck_perform (by nofun)).bind fun _ d now h => ?_
  obtain ⟨-, -, rfl⟩ := ends_perform_iff.mp h
  cases make id domainId primary others wildcard autoRenew now with
  | error e => exact neverStuck_pure
  | ok r =>
    refine (neverStuck_issueFor p _ r .wait).bind fun _ _ issued _ => ?_
    cases issued with
    | ok r => exact neverStuck_pure
    | error e => exact (neverStuck_perform (by nofun)).bind fun _ _ _ _ => neverStuck_pure

theorem close?_of_needsRenewal? {r : CertificateRecord} {window : RenewalWindow} {now : Instant}
    (h : r.needsRenewal? window now = none) : window.close? now = none := by
  unfold needsRenewal? at h
  cases he : r.expiresAt with
  | none =>
    rw [he] at h
    cases h
  | some e =>
    rw [he] at h
    exact Option.map_eq_none_iff.mp h

/-- Once it is known whether the certificate is due, a renewal comes to its end. -/
theorem neverStuck_renew (p : IssuancePractice) (r : CertificateRecord) (o : RenewOptions)
    (isDue : Bool) : NeverStuck false (do
      if !isDue then return .ok (.notDue r)
      match ← issueFor p "renew" r o.lock with
      | .ok r => return .ok (.renewed r)
      | .error error =>
        let now ← perform .wallClock
        let record := some (if error.isPermanent then r.failedWith error now else r)
        return .error { record, error } : Steward (Except RecordFailure Renewal)) := by
  cases isDue with
  | false => exact neverStuck_pure
  | true =>
    refine (neverStuck_issueFor p "renew" r o.lock).bind fun _ _ issued _ => ?_
    cases issued with
    | ok r => exact neverStuck_pure
    | error e => exact (neverStuck_perform (by nofun)).bind fun _ _ _ _ => neverStuck_pure

/-- A renewal comes to its end, unless the window reaches past the end of the calendar. -/
theorem goes_renewRecord {p : IssuancePractice} {window : RenewalWindow} {r : CertificateRecord}
    {o : RenewOptions} {path : List Happening} {c : Bool}
    {q : Steward (Except RecordFailure Renewal)}
    (h : Goes false (renewRecord p window r o) path c q) :
    q.CanGoOn c ∨ ∃ now, path = [⟨.wallClock, now⟩] ∧ window.close? now = none := by
  unfold renewRecord at h
  split at h
  · exact .inl (neverStuck_pure path c q h)
  obtain hq | ⟨_, rest, d, now, rfl, hnow, h⟩ := (neverStuck_perform (by nofun)).goes_bind h
  · exact .inl hq
  obtain ⟨rfl, -, rfl⟩ := ends_perform_iff.mp hnow
  unfold renewsNow at h
  split at h
  · exact .inl (neverStuck_renew p r o true rest c q h)
  cases hd : r.needsRenewal? window now with
  | some isDue =>
    rw [hd] at h
    exact .inl (neverStuck_renew p r o isDue rest c q h)
  | none =>
    rw [hd] at h
    cases h with
    | stay => exact .inr ⟨now, rfl, close?_of_needsRenewal? hd⟩
    | @ask _ _ _ _ answer => exact answer.elim

/-! ### All of it -/

/-- A first issuance that failed has a record, with nothing in it, unless the input was rejected. -/
theorem AfterIssuance.failure {p : IssuancePractice} {domainId primary : String}
    {others : List String} {wildcard autoRenew : Bool} {path : List Happening} {f : RecordFailure}
    (h : AfterIssuance p domainId primary others wildcard autoRenew path (.error f)) :
    (f.record = none ↔ ∃ id now e, path = [⟨.freshName, id⟩, ⟨.wallClock, now⟩] ∧
        make id domainId primary others wildcard autoRenew now = .error e) ∧
      ∀ s, f.record = some s → s.Erased := by
  cases h with
  | rejected rejects =>
    refine ⟨⟨fun _ => ⟨_, _, _, rfl, rejects⟩, fun _ => rfl⟩, fun s hs => ?_⟩
    cases hs
  | @failed id now r s c e pre run post makes _ erased _ =>
    refine ⟨⟨fun hnone => ?_, ?_⟩, ?_⟩
    · cases hnone
    · rintro ⟨id', now', e', hpath, hrejects⟩
      obtain ⟨hid, hrest⟩ := List.cons.inj hpath
      obtain ⟨hnow, -⟩ := List.cons.inj hrest
      cases hid
      cases hnow
      rw [makes] at hrejects
      cases hrejects
    · rintro _ ⟨⟩
      exact erased

/-- **What runs make of records.** Every renewal and every first issuance comes to an end, unless
the window of a renewal reaches past the end of the calendar, and its record is then as
`AfterRenewal` and `AfterIssuance` say. A first issuance that fails has no record just if its input
was rejected, and then the authority was never asked. -/
theorem records_after_runs (p : IssuancePractice) (window : RenewalWindow) :
    (∀ r o path c result, Ends false (renewRecord p window r o) path c result →
      ∃ s, recordOf result = some s ∧ Continues r s ∧ AfterRenewal p window r o path result s) ∧
    (∀ r o path c q, Goes false (renewRecord p window r o) path c q →
      q.CanGoOn c ∨ ∃ now, path = [⟨.wallClock, now⟩] ∧ window.close? now = none) ∧
    (∀ domainId primary others wildcard autoRenew path c result,
      Ends false (issueRecord p domainId primary others wildcard autoRenew) path c result →
      AfterIssuance p domainId primary others wildcard autoRenew path result ∧
      ∀ f, result = .error f →
        (f.record = none ↔ ∃ id now e, path = [⟨.freshName, id⟩, ⟨.wallClock, now⟩] ∧
          make id domainId primary others wildcard autoRenew now = .error e) ∧
        (f.record = none → ∀ q reply, ⟨.authority q, reply⟩ ∉ path) ∧
        ∀ s, f.record = some s → s.Erased) ∧
    ∀ domainId primary others wildcard autoRenew,
      NeverStuck false (issueRecord p domainId primary others wildcard autoRenew) := by
  refine ⟨?_, fun r o path c q => goes_renewRecord, ?_, neverStuck_issueRecord p⟩
  · intro r o path c result h
    obtain ⟨s, hs⟩ := ends_renewRecord h
    exact ⟨s, hs.recordOf_eq, hs.continues, hs⟩
  · intro domainId primary others wildcard autoRenew path c result h
    have hafter := ends_issueRecord h
    refine ⟨hafter, ?_⟩
    rintro f rfl
    obtain ⟨hnone, herased⟩ := hafter.failure
    refine ⟨hnone, fun hf q reply hmem => ?_, herased⟩
    obtain ⟨id, now, e, rfl, -⟩ := hnone.mp hf
    simp at hmem

/-- A renewal for which no key can be made, after which the record is the one from before. -/
theorem records_after_runs_example_com :
    let r : CertificateRecord := { id := "cert_1", primaryDomain := "example.com", autoRenew := true
                                   createdAt := { seconds := 9 }, updatedAt := { seconds := 9 } }
    let e : IssuanceError := .material (.invalidKeySize 1)
    let path : List Happening :=
      [⟨.wallClock, { seconds := 10 }⟩, ⟨.now, (5 : Nat)⟩,
        ⟨.freshKey (IssuanceSettings.key {}), .error (.invalidKeySize 1)⟩,
        ⟨.wallClock, { seconds := 11 }⟩, ⟨.now, (7 : Nat)⟩,
        ⟨.note (.issuance "renew" "crypto" (2 : Nat)), ()⟩, ⟨.wallClock, { seconds := 12 }⟩]
    Ends false (renewRecord {} {} r {}) path false (.error { record := some r, error := e }) ∧
      ∃ s, Continues r s ∧ AfterRenewal {} {} r {} path (.error { record := some r, error := e }) s := by
  intro r e path
  have hnormal : (IssuanceRequest.mk "example.com" [] false).normal =
      .ok ⟨"example.com", [], false⟩ := rfl
  have hissue : Ends false (issueCertificate {} (.ofRecord r) .wait)
      [⟨.freshKey (IssuanceSettings.key {}), .error (.invalidKeySize 1)⟩] false (.error e) := by
    change Ends false (issueCertificate {} ⟨"example.com", [], false⟩ .wait) _ false _
    unfold issueCertificate
    rw [hnormal]
    exact .ask trivial (.stay _ _)
  have hfor : Ends false (issueFor {} "renew" r .wait)
      [⟨.now, (5 : Nat)⟩, ⟨.freshKey (IssuanceSettings.key {}), .error (.invalidKeySize 1)⟩,
        ⟨.wallClock, { seconds := 11 }⟩, ⟨.now, (7 : Nat)⟩,
        ⟨.note (.issuance "renew" "crypto" (2 : Nat)), ()⟩] false (.error e) := by
    refine ends_bind_iff.mpr ⟨[_], _, _, _, rfl, .ask trivial (.stay _ _), ?_⟩
    refine ends_bind_iff.mpr ⟨[_], _, _, _, rfl, hissue, ?_⟩
    exact .ask trivial (.ask trivial (.ask trivial (.stay _ _)))
  have h : Ends false (renewRecord {} {} r {}) path false
      (.error { record := some r, error := e }) := by
    refine ends_bind_iff.mpr ⟨[_], _, _, _, rfl, .ask trivial (.stay _ _), ?_⟩
    refine ends_bind_iff.mpr ⟨[], _, _, _, rfl, .stay _ _, ?_⟩
    exact ends_bind_iff.mpr ⟨_, _, _, _, rfl, hfor, .ask trivial (.stay _ _)⟩
  obtain ⟨s, -, hs⟩ := (records_after_runs {} {}).1 r {} path false _ h
  exact ⟨h, s, hs⟩

end CertSteward
