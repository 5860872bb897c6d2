import CertSteward.Proofs.Renewal.Tally

/-!
# How faults are judged

A fault of an issuance is judged three times: whoever renews a record looks whether the certificate is
ruled out before the record is marked as failed, the sweep looks at the root cause before it counts
and stores anything, and a call looks whether it may be made again. These judgements never disagree.
What is ruled out is counted as failed, and the record that is stored says so with the wording of this
fault; whatever else went wrong leaves the record as it was, and nothing is stored.

## Main definitions

* `IssuanceError.isStopped` — issuances that were cancelled or never begun
* `CertificateRecord.FailedFor`, `CertificateRecord.Judged` — records that failed for a fault, and
  what the fault of a renewal makes of a record
* `Told` — what a renewal of a sweep is counted as, and what it stores

## Main results

* `ofError_eq_failed_iff` and its companions — what a fault is counted as
* `judged_of_ends` — what a renewal makes of its record
* `Sweeping.told` — what a sweep counts and stores
-/

namespace CertSteward

open Steward

/-! ### Sorts of faults -/

namespace IssuanceError

variable {e : IssuanceError}

/-- The issuance was cancelled, or was not begun because another one holds the domain. -/
def isStopped (e : IssuanceError) : Bool :=
  match e.root with
  | cancelled | alreadyInFlight _ => true
  | _ => false

theorem root_root (e : IssuanceError) : e.root.root = e.root := by
  induction e with
  | failed domain stage cause ih => exact ih
  | _ => rfl

theorem root_ne_failed (e : IssuanceError) (domain : String) (stage : IssuanceState)
    (cause : IssuanceError) : e.root ≠ failed domain stage cause := by
  induction e with
  | failed domain stage cause ih => exact ih
  | _ => nofun

theorem isPermanent_root (e : IssuanceError) : e.root.isPermanent = e.isPermanent := by
  induction e with
  | failed domain stage cause ih => exact ih
  | _ => rfl

theorem isTransient_root (e : IssuanceError) : e.root.isTransient = e.isTransient := by
  induction e with
  | failed domain stage cause ih => exact ih
  | _ => rfl

theorem kind_root (e : IssuanceError) : e.root.kind = e.kind :=
  congrArg kindHere e.root_root

/-- A fault is of exactly one sort. -/
theorem count_sorts (e : IssuanceError) : [e.isPermanent, e.isTransient, e.isStopped].count true = 1 := by
  induction e with
  | failed domain stage cause ih => exact ih
  | _ => rfl

/-- What is worth another call is worth another issuance. -/
theorem isTransient_of_isRetryable (h : e.isRetryable = true) : e.isTransient = true := by
  cases e with
  | transient | timeout | dns => rfl
  | _ => cases h

end IssuanceError

namespace RenewalOutcome

/-- What a fault is counted as, told from its sorts. -/
theorem ofError_eq (e : IssuanceError) : ofError e =
    if e.isPermanent then failed else if e.isTransient then transient
    else if e.root = .cancelled then cancelled else skipped := by
  rw [← e.isPermanent_root, ← e.isTransient_root, ofError]
  cases h : e.root with
  | failed domain stage cause => exact absurd h (e.root_ne_failed domain stage cause)
  | _ => rfl

/-- Just what is ruled out is counted as failed. -/
theorem ofError_eq_failed_iff {e : IssuanceError} : ofError e = failed ↔ e.isPermanent = true := by
  rw [ofError_eq]
  split
  · exact iff_of_true rfl ‹_›
  · refine iff_of_false ?_ ‹_›
    split
    · nofun
    · split <;> nofun

end RenewalOutcome

/-! ### Renewals -/

namespace CertificateRecord

/-- The record has failed for that fault. -/
def FailedFor (r : CertificateRecord) (e : IssuanceError) : Prop :=
  r.status = .failed ∧ r.lastError = some e.message

/-- What the fault of a renewal of `r` makes of the record: if the fault is counted as failed, the
record is marked as failed for it, and otherwise it is the one from before. -/
inductive Judged (r : CertificateRecord) (e : IssuanceError) (s : CertificateRecord) : Prop
  | failed (now : Instant) (counts : RenewalOutcome.ofError e = .failed)
    (marked : r.markFailed e.message now = .ok s)
  | kept (counts : RenewalOutcome.ofError e ≠ .failed) (same : s = r)

variable {r s : CertificateRecord} {e : IssuanceError} {now : Instant}

theorem failedFor_of_markFailed (h : r.markFailed e.message now = .ok s) : s.FailedFor e := by
  unfold markFailed at h
  split at h
  · cases h
  · obtain rfl := Except.ok.inj h
    exact ⟨rfl, rfl⟩

/-- The record failed for a fault just if that is what the fault is counted as, unless it had failed
for a fault with the same wording before. -/
theorem Judged.failedFor_iff (h : r.Judged e s) (hr : ¬ r.FailedFor e) :
    s.FailedFor e ↔ RenewalOutcome.ofError e = .failed := by
  cases h with
  | failed now counts marked => exact iff_of_true (failedFor_of_markFailed marked) counts
  | kept counts same =>
    subst same
    exact iff_of_false hr counts

theorem markFailed_eq_failedWith (hr : r.status ≠ .revoked) (e : IssuanceError) (now : Instant) :
    r.markFailed e.message now = .ok (r.failedWith e now) := by
  rw [failedWith, markFailed, if_neg hr]
  rfl

end CertificateRecord

open CertificateRecord

variable {r : CertificateRecord}

/-- **What a renewal makes of its record.** -/
theorem judged_of_ends {p : IssuancePractice} {window : RenewalWindow} {o : RenewOptions}
    {path : List Happening} {c : Bool} {f : RecordFailure} (hr : r.status ≠ .revoked)
    (h : Ends false (renewRecord p window r o) path c (.error f)) :
    ∃ s, f.record = some s ∧ r.Judged f.error s := by
  unfold renewRecord at h
  rw [if_neg hr] at h
  obtain ⟨_, _, _, now, rfl, hnow, h⟩ := ends_bind_iff.mp h
  obtain ⟨rfl, -, rfl⟩ := ends_perform_iff.mp hnow
  obtain ⟨_, _, _, isDue, rfl, -, h⟩ := ends_bind_iff.mp h
  cases isDue with
  | false =>
    obtain ⟨-, -, hresult⟩ := ends_done_iff.mp h
    cases hresult
  | true =>
    obtain ⟨_, _, _, issued, rfl, -, h⟩ := ends_bind_iff.mp h
    cases issued with
    | ok s =>
      obtain ⟨-, -, hresult⟩ := ends_done_iff.mp h
      cases hresult
    | error e =>
      obtain ⟨_, _, _, after, rfl, -, hlast⟩ := ends_bind_iff.mp h
      obtain ⟨-, -, hresult⟩ := ends_done_iff.mp hlast
      cases hresult
      cases he : e.isPermanent with
      | true =>
        exact ⟨_, rfl, .failed after (RenewalOutcome.ofError_eq_failed_iff.mpr he)
          (markFailed_eq_failedWith hr e after)⟩
      | false =>
        refine ⟨r, rfl, .kept (fun hfailed => ?_) rfl⟩
        rw [RenewalOutcome.ofError_eq_failed_iff.mp hfailed] at he
        cases he

/-! ### Sweeps -/

/-- How a sweep renews. -/
def Renews (p : RenewalPractice) (r : CertificateRecord) (result : Except RecordFailure Renewal) :
    Prop :=
  ∃ path c, Ends false (renewRecord p.issuance p.window r { force := true, lock := .skip }) path c
    result

/-- What a renewal of a sweep is counted as and what it stores, as whoever renewed the record
decided. -/
inductive Told (p : RenewalPractice) (r : CertificateRecord) :
    RenewalOutcome → List CertificateRecord → Prop
  /-- The sweep was cancelled before the renewal began. -/
  | unbegun : Told p r .cancelled []
  | renewed {s : CertificateRecord} (renews : Renews p r (.ok (.renewed s)))
    (isIssued : s.status = .issued) : Told p r .renewed [s]
  | failed {s : CertificateRecord} {e : IssuanceError}
    (renews : Renews p r (.error { record := some s, error := e })) (failedFor : s.FailedFor e) :
    Told p r .failed [s]
  | kept {e : IssuanceError} (renews : Renews p r (.error { record := some r, error := e }))
    (counts : RenewalOutcome.ofError e ≠ .failed) : Told p r (.ofError e) []

variable {p : RenewalPractice} {o : RenewalOutcome} {stored : List CertificateRecord}

theorem RenewalOutcome.ofError_ne_renewed (e : IssuanceError) : ofError e ≠ renewed := by
  rw [ofError_eq]
  split
  · nofun
  · split
    · nofun
    · split <;> nofun

/-- A renewal is counted as failed just if a failed record is stored. -/
theorem Told.failed_iff (h : Told p r o stored) :
    o = .failed ↔ ∃ s ∈ stored, s.status = .failed := by
  cases h with
  | unbegun => simp
  | renewed _ isIssued => simp [isIssued]
  | failed _ failedFor => simp [failedFor.1]
  | kept _ counts => simp [counts]

/-- What is stored of a renewal that is counted as failed. -/
theorem Told.exists_of_failed (h : Told p r o stored) (ho : o = .failed) :
    ∃ s e, Renews p r (.error { record := some s, error := e }) ∧ s.FailedFor e ∧ stored = [s] := by
  cases h with
  | unbegun | renewed => cases ho
  | failed renews failedFor => exact ⟨_, _, renews, failedFor, rfl⟩
  | kept _ counts => exact absurd ho counts

/-- What is neither kept by the sweep nor renewed is not stored. -/
theorem RenewalOutcome.isKept_ofError (e : IssuanceError) :
    (ofError e).isKept = decide (ofError e = failed) := by
  cases h : ofError e with
  | renewed => exact absurd h (ofError_ne_renewed e)
  | _ => rfl

/-- **What is told of a renewal of a sweep.** -/
theorem AfterDue.told {permits : Nat} {path : List Happening} {saved : Option CertificateRecord}
    (hr : r.status ≠ .revoked) (h : AfterDue p permits r path o saved) :
    Told p r o (path.filterMap (·.1.saved?)) := by
  rw [h.saved]
  cases h with
  | cancelled => exact .unbegun
  | @renewed run keeping c result ends _ =>
    cases result with
    | ok renewal =>
      obtain ⟨s, hs⟩ := ends_renewRecord ends
      cases hs with
      | notDue now stays => exact absurd (.inl rfl) stays
      | renewed _ _ _ holds _ => exact .renewed ⟨_, _, ends⟩ holds.status
    | error f =>
      obtain ⟨s, hs, hjudged⟩ := judged_of_ends hr ends
      obtain ⟨record, e⟩ := f
      obtain rfl : record = some s := hs
      rw [verdict, RenewalOutcome.isKept_ofError]
      cases hjudged with
      | failed now counts marked =>
        rw [counts]
        exact .failed ⟨_, _, ends⟩ (failedFor_of_markFailed marked)
      | kept counts same =>
        subst same
        rw [decide_eq_false counts]
        exact .kept ⟨_, _, ends⟩ counts

/-- What is due is not revoked. -/
theorem CertificateRecord.status_of_isDue {window : RenewalWindow} {now : Instant}
    (h : r.isDue? window now = some true) : r.status = .issued := by
  unfold isDue? at h
  split at h
  · rename_i hopen
    exact hopen.1
  · cases h

/-- **What a sweep counts and stores.** -/
theorem Sweeping.told {w : Weave (Except StoreError SweepReport)} {report : SweepReport}
    (h : Sweeping p w) (hreport : w.returned 0 = some (.ok report)) :
    ∃ tasks : List Task, report.outcomes = tasks.map Task.result ∧ ∀ t ∈ tasks,
      t.record.status = .issued ∧
        Told p t.record t.result ((w.path t.strand).filterMap (·.1.saved?)) := by
  obtain ⟨c, hc, rfl⟩ := h.course hreport
  refine ⟨c.tasks, rfl, fun t ht => ?_⟩
  have hissued := status_of_isDue (c.mem_due.mp (List.mem_map_of_mem ht)).2
  obtain ⟨-, saved, -, -, -, hdue⟩ := h.afterDue hc ht
  refine ⟨hissued, hdue.told ?_⟩
  rw [hissued]
  nofun

/-! ### All judgements -/

/-- **All judgements of a fault agree.** A fault is of exactly one sort, which is that of its root
cause, and what is worth another call is worth another issuance. A renewal that fails marks its
record as failed for the fault just if the fault is counted as failed. A sweep counts each renewal as
what it was decided to come to, and stores a failed record just where it counts one as failed. -/
theorem IssuanceError.judgements_agree :
    (∀ e : IssuanceError, [e.isPermanent, e.isTransient, e.isStopped].count true = 1 ∧
      e.kind = e.root.kind ∧ e.isTransient = e.root.isTransient ∧
      e.isPermanent = e.root.isPermanent ∧ (e.isRetryable = true → e.isTransient = true)) ∧
    (∀ (p : IssuancePractice) (window : RenewalWindow) (r : CertificateRecord) (o : RenewOptions)
      (path : List Happening) (c : Bool) (f : RecordFailure), r.status ≠ .revoked →
      Ends false (renewRecord p window r o) path c (.error f) →
      ∃ s, f.record = some s ∧ r.Judged f.error s ∧
        (¬ r.FailedFor f.error → (RenewalOutcome.ofError f.error = .failed ↔ s.FailedFor f.error))) ∧
    ∀ (p : RenewalPractice) (w : Weave (Except StoreError SweepReport)) (report : SweepReport),
      Sweeping p w → w.returned 0 = some (.ok report) →
      ∃ tasks : List Task, report.outcomes = tasks.map Task.result ∧ ∀ t ∈ tasks,
        t.record.status = .issued ∧
        Told p t.record t.result ((w.path t.strand).filterMap (·.1.saved?)) ∧
        (t.result = .failed ↔ ∃ s ∈ (w.path t.strand).filterMap (·.1.saved?), s.status = .failed) := by
  refine ⟨fun e => ⟨e.count_sorts, e.kind_root.symm, e.isTransient_root.symm,
    e.isPermanent_root.symm, isTransient_of_isRetryable⟩, ?_, ?_⟩
  · intro p window r o path c f hr h
    obtain ⟨s, hs, hjudged⟩ := judged_of_ends hr h
    exact ⟨s, hs, hjudged, fun hunfailed => (hjudged.failedFor_iff hunfailed).symm⟩
  · intro p w report h hreport
    obtain ⟨tasks, houtcomes, htold⟩ := h.told hreport
    refine ⟨tasks, houtcomes, fun t ht => ?_⟩
    obtain ⟨hissued, htold⟩ := htold t ht
    exact ⟨hissued, htold, htold.failed_iff⟩

/-- Of two renewals one is rejected and one has lost its order: one record is stored as failed for
the rejection, and nothing is stored of the other. -/
theorem IssuanceError.judgements_agree_sampleRun :
    ∃ (w : Weave (Except StoreError SweepReport)) (t u : Task) (s : CertificateRecord)
      (e : IssuanceError), Sweeping.sampleRun Sweeping.firstOrder = some w ∧
      Sweeping Sweeping.samplePractice w ∧ t.result = .failed ∧ u.result = .transient ∧
      Renews Sweeping.samplePractice t.record (.error { record := some s, error := e }) ∧
      t.record.Judged e s ∧ s.FailedFor e ∧ (w.path t.strand).filterMap (·.1.saved?) = [s] ∧
      (∀ s ∈ (w.path u.strand).filterMap (·.1.saved?), s.status ≠ .failed) ∧
      (IssuanceError.timeout "new_order" (0 : Nat)).isTransient = true := by
  obtain ⟨w, hw, hfacts⟩ := Sweeping.sampleRun_firstOrder
  have hsweep : Sweeping Sweeping.samplePractice w := Weave.strides_of_play hw
  obtain ⟨hsorts, hrenewals, hsweeps⟩ := judgements_agree
  obtain ⟨tasks, houtcomes, htasks⟩ := hsweeps _ w _ hsweep hfacts.returned
  obtain ⟨t, rest, rfl, ht, hrest⟩ := List.map_eq_cons_iff.mp houtcomes.symm
  obtain ⟨u, rest, rfl, hu, -⟩ := List.map_eq_cons_iff.mp hrest
  obtain ⟨hissued, htold, -⟩ := htasks t List.mem_cons_self
  obtain ⟨-, -, hunstored⟩ := htasks u (List.mem_cons_of_mem _ List.mem_cons_self)
  obtain ⟨s, e, ⟨path, c, hends⟩, hfor, hstored⟩ := htold.exists_of_failed ht
  obtain ⟨_, ⟨⟩, hjudged, -⟩ := hrenewals _ _ _ _ path c _ (by rw [hissued]; nofun) hends
  refine ⟨w, t, u, s, e, hw, hsweep, ht, hu, ⟨path, c, hends⟩, hjudged, hfor, hstored,
    fun x hx hfailed => ?_, (hsorts (.timeout "new_order" 0)).2.2.2.2 rfl⟩
  have hcounts := hunstored.mpr ⟨x, hx, hfailed⟩
  rw [hu] at hcounts
  cases hcounts

end CertSteward
