import CertSteward.Proofs.Issuance.Requests
import CertSteward.Proofs.Issuance.Runs
import CertSteward.Proofs.Renewal.Records
import CertSteward.Proofs.Renewal.Revocation
import CertSteward.Proofs.Run.Rehearsal
import CertSteward.Proofs.Store.History
import CertSteward.Service.Service

/-!
# What was known of a record that is saved

Renewals, revocations and sweeps read a record, work for a while and save what came of it. Nothing
ties the save to what was read: the store keeps no versions, and nobody looks again before saving.
So what is saved may be younger than what it replaces and know less. Of a revoked record this means
that it can be overwritten by somebody who has read it before it was revoked, and by nobody else.

The invariant is on what a run knows: a run saves a record that is not revoked only if it has read
one of that name that was not. A job of a sweep knows the record for which it was started, which the
sweep has read.

## Main definitions

* `Upkeep` — renewals, revocations and sweeps
* `knowing` — the conduct of who saves what it knows

## Main results

* `Upkeep.keeps`, `keeps_renewDue` — upkeep and its jobs conduct themselves so
* `Upkeeping.told` — what a run knows it was told
* `Upkeeping.overwritten_from_before` — who overwrites a revoked record has read it earlier
* `Upkeeping.revoked_overwritten` — a revoked record is overwritten
-/

namespace CertSteward

open Steward Conduct

/-- Work on the records of a store. -/
inductive Upkeep
  | renew (name : String) (options : RenewOptions)
  | revoke (name : String) (reason : Revocation)
  | sweep

/-- What is done. -/
def Upkeep.program (s : Service) : Upkeep → Steward Unit
  | renew name options => do
    if let .ok r ← Service.find name then
      let _ ← s.renew r options
  | revoke name reason => do
    if let .ok r ← Service.find name then
      let _ ← s.revoke r reason
  | sweep => do
    let _ ← CertSteward.sweep s.practice

/-! ### Knowing -/

/-- A record is saved as revoked, or one with its name is known that was not. A renewal of a sweep
is started for a record that is known. -/
def knowing : Conduct (List CertificateRecord) where
  may b known
    | .records (.save s) => s.status = .revoked ∨ ∃ r ∈ known, r.id = s.id ∧ r.status ≠ .revoked
    | .spawn j => (∃ cell name value, j = .createRecord cell name value) ∨
        ∃ permits t, j = .renewDue permits t ∧ t.record ∈ known ∧ t.record.status ≠ .revoked
    | .wait (.all jobs) => ∀ j ∈ jobs, j.IsErrand b
    | _ => True
  next known a answer := a.reads answer ++ known

/-- The rules for upkeep and its jobs: a renewal of a sweep knows its record from its beginning. -/
def upkeepRules : Rules Unit (List CertificateRecord) where
  conduct _ _ := knowing
  start
    | some (.renewDue _ t) => [t.record]
    | _ => []
  ends _ _ _ _ _ := True

variable {known : List CertificateRecord} {r : CertificateRecord}

/-! ### Issuances read and save nothing -/

theorem Act.IsIssuing.reads {a : Act} (h : a.IsIssuing) (answer : a.Answer) :
    a.reads answer = [] := by
  cases a with
  | records q => exact h.elim
  | _ => rfl

/-- An issuance adds nothing to what is known. -/
theorem keeps_knowing_issueCertificate (p : IssuancePractice) (r : IssuanceRequest)
    (mode : LockMode) :
    knowing.Keeps (fun c t _ => c = false ∧ t = known) false known (issueCertificate p r mode) := by
  have hprotocol := keeps_issueCertificate p r mode
  have honly := only_issueCertificate p r mode
  generalize issueCertificate p r mode = q at hprotocol honly ⊢
  refine ((hprotocol.among honly).of_may ?_).mono fun c t _ ⟨ht, _, hc, _⟩ => ⟨hc, ht⟩
  rintro b j a ⟨⟨hstanding, herrand⟩, hissuing⟩
  refine ⟨?_, fun answer => congrArg (· ++ known) (hissuing.reads answer)⟩
  cases a with
  | records q => exact hissuing.elim
  | spawn => exact hstanding.elim
  | wait v =>
    cases v with
    | all jobs =>
      intro job hjob
      have hsend := hstanding.2 job hjob
      cases job with
      | provision | propagate => trivial
      | deprovision => exact hsend.1
      | _ => exact hsend.elim
    | _ => trivial
  | _ => trivial

theorem keeps_knowing_issueFor (p : IssuancePractice) (operation : String) (r : CertificateRecord)
    (mode : LockMode) :
    knowing.Keeps (fun c t _ => c = false ∧ t = known) false known
      (issueFor p operation r mode) := by
  unfold issueFor
  have hissue : knowing.Keeps _ false known _ :=
    keeps_knowing_issueCertificate p (.ofRecord r) mode
  generalize issueCertificate p (.ofRecord r) mode = q at hissue ⊢
  refine keeps_bind.mpr (keeps_perform.mpr ⟨trivial, fun started _ => ?_⟩)
  refine keeps_bind.mpr (hissue.mono ?_)
  rintro _ _ issued ⟨rfl, rfl⟩
  refine keeps_bind.mpr (keeps_perform.mpr ⟨trivial, fun now _ => ?_⟩)
  refine keeps_bind.mpr (keeps_perform.mpr ⟨trivial, fun later _ => ?_⟩)
  exact keeps_bind.mpr (keeps_perform.mpr ⟨trivial, fun _ _ => ⟨rfl, rfl⟩⟩)

theorem keeps_knowing_dated {α : Type} (o : Option α) {b : Bool} :
    knowing.Keeps (fun c t a => c = b ∧ t = known ∧ o = some a) b known (dated o) := by
  cases o with
  | some a => exact ⟨rfl, rfl, rfl⟩
  | none => exact ⟨trivial, nofun⟩

/-- A renewal saves nothing, and comes with a record. -/
theorem keeps_knowing_renewRecord (p : IssuancePractice) (window : RenewalWindow)
    (r : CertificateRecord) (o : RenewOptions) :
    knowing.Keeps (fun c t result => (c = false ∧ t = known) ∧
      ∃ path, Ends false (renewRecord p window r o) path c result) false known
      (renewRecord p window r o) := by
  refine Keeps.ends ?_
  unfold renewRecord
  split
  · exact ⟨rfl, rfl⟩
  refine keeps_bind.mpr (keeps_perform.mpr ⟨trivial, fun now _ => ?_⟩)
  refine keeps_bind.mpr (Keeps.mono (Q := fun c t _ => c = false ∧ t = known) ?_ ?_)
  · unfold renewsNow
    split
    · exact ⟨rfl, rfl⟩
    · exact (keeps_knowing_dated _).mono fun c t a h => ⟨h.1, h.2.1⟩
  rintro _ _ (_ | _) ⟨rfl, rfl⟩
  · exact ⟨rfl, rfl⟩
  refine keeps_bind.mpr ((keeps_knowing_issueFor p "renew" r o.lock).mono ?_)
  rintro _ _ (e | s) ⟨rfl, rfl⟩
  · exact keeps_bind.mpr (keeps_perform.mpr ⟨trivial, fun _ _ => ⟨rfl, rfl⟩⟩)
  · exact ⟨rfl, rfl⟩

/-- The record that comes with a renewal has the name of the old one, and is revoked if that is. -/
theorem recordOf_of_ends {p : IssuancePractice} {window : RenewalWindow} {o : RenewOptions}
    {path : List Happening} {c : Bool} {result : Except RecordFailure Renewal}
    (h : Ends false (renewRecord p window r o) path c result) :
    ∃ s, recordOf result = some s ∧ s.id = r.id ∧ (r.status = .revoked → s.status = .revoked) := by
  obtain ⟨s, hs⟩ := ends_renewRecord h
  refine ⟨s, hs.recordOf_eq, hs.continues.id, fun hr => ?_⟩
  unfold renewRecord at h
  rw [if_pos hr] at h
  obtain ⟨-, -, rfl⟩ := ends_done_iff.mp h
  cases hs.recordOf_eq
  exact hr

/-- The record that comes with a renewal may be saved by who knows the old one. -/
theorem maySave_of_renewal {p : IssuancePractice} {window : RenewalWindow} {o : RenewOptions}
    {path : List Happening} {b c : Bool} {result : Except RecordFailure Renewal}
    {s : CertificateRecord} (hr : r ∈ known)
    (h : Ends false (renewRecord p window r o) path c result) (hs : recordOf result = some s) :
    knowing.may b known (.records (.save s)) := by
  obtain ⟨s', hs', hid, hstatus⟩ := recordOf_of_ends h
  obtain rfl := Option.some.inj (hs'.symm.trans hs)
  by_cases hrevoked : r.status = .revoked
  · exact .inl (hstatus hrevoked)
  · exact .inr ⟨r, hr, hid.symm, hrevoked⟩

/-! ### Upkeep -/

theorem keeps_find {name : String} {known : List CertificateRecord} :
    knowing.Keeps (fun c t result => c = false ∧ ∀ r, result = .ok r → r ∈ t) false known
      (Service.find name) := by
  unfold Service.find
  refine keeps_bind.mpr (keeps_perform.mpr ⟨trivial, ?_⟩)
  rintro (e | _ | r) - <;> refine ⟨rfl, fun s hs => ?_⟩ <;> cases hs
  exact List.mem_cons_self

theorem keeps_renew (s : Service) (hr : r ∈ known) (o : RenewOptions) :
    knowing.Keeps (fun _ _ _ => True) false known (s.renew r o) := by
  unfold Service.renew
  refine keeps_bind.mpr ((keeps_knowing_renewRecord _ _ r o).mono ?_)
  rintro _ _ (f | renewal) ⟨⟨rfl, rfl⟩, path, h⟩
  · change knowing.Keeps _ _ _ (Service.keepFailure f)
    unfold Service.keepFailure
    cases hrecord : f.record with
    | none => trivial
    | some t =>
      refine keeps_bind.mpr (keeps_perform.mpr ⟨maySave_of_renewal hr h hrecord, ?_⟩)
      rintro (e | _) - <;> trivial
  · cases renewal with
    | notDue t => trivial
    | renewed t =>
      refine keeps_bind.mpr (keeps_bind.mpr (keeps_perform.mpr ⟨maySave_of_renewal hr h rfl, ?_⟩))
      exact fun _ _ => trivial

/-- Requests of a revocation. -/
def Act.IsPlea : Act → Prop
  | .now | .authority _ | .wait (.sleep _) | .wallClock => True
  | _ => False

theorem keeps_revoke (s : Service) (r : CertificateRecord) (reason : Revocation) :
    knowing.Keeps (fun _ _ _ => True) false known (s.revoke r reason) := by
  have hcall : ∀ (settings : IssuanceSettings) (q : AuthorityRequest),
      Only Act.IsPlea (callAuthority settings settings.callRetries q).run :=
    fun settings q => .callAuthority trivial (fun _ => trivial) trivial
  have hask : ∀ (settings : IssuanceSettings) (der : List UInt8),
      Only Act.IsPlea (revokeCertificate settings der reason).run := by
    intro settings der
    refine (hcall settings .ensureAccount).run_bind fun x => ?_
    cases x with
    | error e => exact only_run_pure _
    | ok => exact hcall settings _
  have hpure : ∀ (b : Bool) (t : CertificateRecord), knowing.Keeps (fun _ t x => t = known ∧
      (x.1 = true → x.2.status = .revoked)) b known (pure (false, t)) := fun b t => ⟨rfl, nofun⟩
  have hrevoke : knowing.Keeps (fun _ t x => t = known ∧ (x.1 = true → x.2.status = .revoked))
      false known (revokeRecord s.practice.issuance r reason) := by
    unfold revokeRecord
    split
    · exact hpure _ _
    split
    · exact hpure _ _
    · exact hpure _ _
    refine keeps_bind.mpr ((Keeps.of_only_stay (hask _ _) ?_ ?_).mono ?_)
    · intro b a ha
      cases a with
      | wait v =>
        cases v with
        | all => exact ha.elim
        | _ => trivial
      | records | spawn => exact ha.elim
      | _ => trivial
    · intro a answer ha
      cases a with
      | records => exact ha.elim
      | _ => rfl
    rintro b _ (_ | e | _) rfl
    · exact hpure _ _
    · exact hpure _ _
    refine keeps_bind.mpr (keeps_perform.mpr ⟨trivial, fun now _ => ?_⟩)
    cases hmark : r.markRevoked reason now with
    | error e => exact hpure _ _
    | ok t =>
      refine ⟨rfl, fun _ => ?_⟩
      unfold CertificateRecord.markRevoked at hmark
      split at hmark
      · cases hmark
        rfl
      · cases hmark
  unfold Service.revoke
  refine keeps_bind.mpr (hrevoke.mono ?_)
  rintro b _ ⟨done, t⟩ ⟨rfl, hdone⟩
  cases done with
  | false => trivial
  | true =>
    exact keeps_bind.mpr (keeps_bind.mpr (keeps_perform.mpr ⟨.inl (hdone rfl), fun _ _ => trivial⟩))

/-! ### Sweeps -/

theorem keeps_renewDue (p : RenewalPractice) (permits : Nat) {task : RenewalTask}
    (htask : task.record ∈ known) :
    knowing.Keeps (fun _ _ _ => True) false known (renewDue p permits task) := by
  have hkeep : ∀ (id : String) (outcome : RenewalOutcome) (record : Option CertificateRecord),
      (∀ s, record = some s → knowing.may false known (.records (.save s))) →
      knowing.Keeps (fun _ _ _ => True) false known (keepOutcome id outcome record) := by
    intro id outcome record hrecord
    unfold keepOutcome
    cases outcome with
    | skipped | cancelled => trivial
    | transient =>
      exact keeps_bind.mpr (keeps_perform.mpr ⟨trivial, fun n _ =>
        keeps_perform.mpr ⟨trivial, fun _ _ => trivial⟩⟩)
    | renewed | failed =>
      refine keeps_bind.mpr (keeps_perform.mpr ⟨trivial, fun _ _ => ?_⟩)
      cases record with
      | none => trivial
      | some s =>
        exact keeps_bind.mpr (keeps_perform.mpr ⟨hrecord s rfl, fun _ _ => trivial⟩)
  have hrenew : knowing.Keeps (fun _ _ _ => True) false known (renewInSweep p task.record) := by
    unfold renewInSweep
    refine keeps_bind.mpr ((keeps_knowing_renewRecord _ _ _ _).mono ?_)
    rintro _ t result ⟨⟨rfl, ht⟩, path, h⟩
    obtain rfl := ht.symm
    have hmay : ∀ s, recordOf result = some s → knowing.may false known (.records (.save s)) :=
      fun s hs => maySave_of_renewal htask h hs
    cases result <;>
      exact keeps_bind.mpr ((hkeep _ _ _ hmay).mono fun _ _ _ _ => trivial)
  unfold renewDue
  refine keeps_bind.mpr (keeps_perform.mpr ⟨trivial, ?_⟩)
  rintro (_ | _) -
  · trivial
  refine keeps_bind.mpr (keeps_perform.mpr ⟨trivial, fun isCancelled _ => ?_⟩)
  have hgive : ∀ (b : Bool) (t : List CertificateRecord) (outcome : RenewalOutcome),
      knowing.Keeps (fun _ _ _ => True) b t (do
        perform (.givePermit permits)
        return outcome) :=
    fun _ _ _ => keeps_bind.mpr (keeps_perform.mpr ⟨trivial, fun _ _ => trivial⟩)
  cases isCancelled with
  | true => exact hgive _ _ _
  | false => exact keeps_bind.mpr (hrenew.mono fun b t outcome _ => hgive b t outcome)

theorem keeps_examine (window : RenewalWindow) (now : Instant)
    {acc : List RenewalTask × Nat} (hr : r ∈ known)
    (hacc : ∀ x ∈ acc.1, x.record ∈ known ∧ x.record.status ≠ .revoked) :
    knowing.Keeps (fun c t acc => c = false ∧ t = known ∧
      ∀ x ∈ acc.1, x.record ∈ known ∧ x.record.status ≠ .revoked) false known
      (examine window now acc r) := by
  unfold examine
  refine keeps_bind.mpr ((keeps_knowing_dated _).mono ?_)
  rintro _ t isDue ⟨rfl, ht, hdue⟩
  obtain rfl := ht.symm
  cases isDue with
  | true =>
    refine keeps_bind.mpr (keeps_perform.mpr ⟨trivial, fun n _ => ⟨rfl, rfl, fun x hx => ?_⟩⟩)
    obtain hx | hx := List.mem_append.mp hx
    · exact hacc x hx
    · obtain rfl := List.mem_singleton.mp hx
      refine ⟨hr, fun (hrevoked : r.status = .revoked) => ?_⟩
      simp [CertificateRecord.isDue?, hrevoked] at hdue
  | false =>
    cases hauto : r.autoRenew with
    | true => exact ⟨rfl, rfl, hacc⟩
    | false =>
      refine keeps_bind.mpr (Keeps.mono (Q := fun c t _ => c = false ∧ t = known) ?_ ?_)
      · unfold expire
        split
        · rename_i hover
          refine keeps_bind.mpr (keeps_perform.mpr ⟨trivial, fun clock _ => ?_⟩)
          refine keeps_bind.mpr (keeps_perform.mpr ⟨.inr ⟨r, hr, ?_, ?_⟩, fun _ _ => ⟨rfl, rfl⟩⟩)
          · rw [CertificateRecord.markExpiredIfDue, if_pos hover]
            rfl
          · intro hrevoked
            simp [CertificateRecord.isOver, hrevoked] at hover
        · exact ⟨rfl, rfl⟩
      · rintro _ _ (_ | _) ⟨rfl, rfl⟩ <;> exact ⟨rfl, rfl, hacc⟩

theorem keeps_sweep (p : RenewalPractice) :
    knowing.Keeps (fun _ _ _ => True) false known (sweep p) := by
  unfold sweep
  refine keeps_bind.mpr (keeps_perform.mpr ⟨trivial, fun started _ => ?_⟩)
  refine keeps_bind.mpr (keeps_perform.mpr ⟨trivial, fun now _ => ?_⟩)
  refine keeps_bind.mpr (keeps_perform.mpr ⟨trivial, ?_⟩)
  rintro (e | records) -
  · trivial
  refine keeps_bind.mpr ((keeps_foldlM (I := fun c t acc => c = false ∧ t = records ++ known ∧
    ∀ x ∈ acc.1, x.record ∈ records ++ known ∧ x.record.status ≠ .revoked) ?_
    ⟨rfl, rfl, by simp⟩).mono ?_)
  · rintro r hr _ _ acc ⟨rfl, rfl, hacc⟩
    exact keeps_examine _ _ (List.mem_append_left _ hr) hacc
  rintro _ t ⟨due, expired⟩ ⟨rfl, ht, hdue⟩
  subst ht
  refine keeps_bind.mpr (keeps_perform.mpr ⟨trivial, fun permits _ => ?_⟩)
  refine keeps_bind.mpr (Keeps.mono (keeps_forMapM (I := fun _ t => t = records ++ known)
    (fun x hx b t ht => ?_) rfl) ?_)
  · subst ht
    exact keeps_perform.mpr ⟨.inr ⟨permits, x, rfl, hdue x hx⟩, fun _ _ => rfl⟩
  rintro b _ jobs rfl
  refine keeps_bind.mpr (Keeps.mono (keeps_forMapM (I := fun _ _ => True)
    (fun job _ b t _ => ?_) trivial) fun b t outcomes _ => ?_)
  · exact keeps_bind.mpr (keeps_perform.mpr ⟨trivial, fun _ _ =>
      keeps_bind.mpr (keeps_perform.mpr ⟨trivial, fun _ _ => trivial⟩)⟩)
  · exact keeps_bind.mpr (keeps_perform.mpr ⟨trivial, fun _ _ =>
      keeps_bind.mpr (keeps_perform.mpr ⟨trivial, fun _ _ => trivial⟩)⟩)

/-! ### The rules -/

theorem Upkeep.keeps (s : Service) (u : Upkeep) :
    knowing.Keeps (fun _ _ _ => True) false [] (u.program s) := by
  cases u with
  | renew name options =>
    refine keeps_bind.mpr (keeps_find.mono ?_)
    rintro _ known (e | r) ⟨rfl, hr⟩
    · trivial
    · exact keeps_bind.mpr ((keeps_renew s (hr r rfl) options).mono fun _ _ _ _ => trivial)
  | revoke name reason =>
    refine keeps_bind.mpr (keeps_find.mono ?_)
    rintro _ known (e | r) ⟨rfl, -⟩
    · trivial
    · exact keeps_bind.mpr ((keeps_revoke s r reason).mono fun _ _ _ _ => trivial)
  | sweep => exact keeps_bind.mpr ((keeps_sweep s.practice).mono fun _ _ _ _ => trivial)

theorem upkeep_admits {p : RenewalPractice} {run : Nat} {b : Bool} {j : Job} (h : j.IsErrand b) :
    upkeepRules.Admits p.program run b j := by
  have hstart : upkeepRules.start (some j) = [] := by
    cases j with
    | renewDue => exact h.elim
    | _ => rfl
  rw [Rules.Admits, hstart]
  refine keeps_map.mpr ((Keeps.of_may (keeps_program h) ?_).mono fun _ _ _ _ => trivial)
  intro b e a hmay
  cases a with
  | records q => cases hmay
  | spawn j =>
    obtain ⟨c, name, value, -, rfl⟩ := hmay
    exact ⟨.inl ⟨c, name, value, rfl⟩, fun _ => rfl⟩
  | wait v =>
    cases v with
    | all => cases hmay.2
    | _ => exact ⟨trivial, fun _ => rfl⟩
  | _ => exact ⟨trivial, fun _ => rfl⟩

theorem upkeep_covers (p : RenewalPractice) : upkeepRules.Covers p.program where
  spawn := by
    rintro run job b t j (⟨c, name, value, rfl⟩ | ⟨permits, task, rfl, -, -⟩)
    · exact upkeep_admits rfl
    · exact keeps_map.mpr (keeps_map.mpr ((keeps_renewDue p permits List.mem_cons_self).mono
        fun _ _ _ _ => trivial))
  divide hmay j hj := upkeep_admits (hmay j hj)

/-- A weave that work on the records of a store, all done at the same time, can lead to. -/
def Upkeeping (s : Service) (work : List Upkeep) (w : Weave Unit) : Prop :=
  Weave.Strides s.practice.program (Weave.start (work.map (Upkeep.program s))) w

namespace Upkeeping

variable {s : Service} {work : List Upkeep} {w : Weave Unit}

theorem holds (h : Upkeeping s work w) : upkeepRules.Holds w := by
  refine Rules.holds_of_leads (fun i p hp => ?_) (upkeep_covers s.practice)
    (fun _ _ => Weave.Stride.turn) h
  rw [List.getElem?_map, Option.map_eq_some_iff] at hp
  obtain ⟨u, -, rfl⟩ := hp
  exact keeps_map.mpr (u.keeps s)

/-- What a strand asks for is what it may ask for, as far as it knows. -/
theorem may (h : Upkeeping s work w) {i : Nat} {t : Strand Unit} (here : w.strands[i]? = some t)
    {a : Act} {next : a.Answer → Steward (Outcome ⊕ Unit)} (asks : t.program = .ask a next) :
    knowing.may t.isWatching (upkeepRules.state w i t.run t.job) a := by
  have hgov := h.holds i t here
  rw [Rules.Governs, asks] at hgov
  exact hgov.1

/-- **What a strand knows its run was told.** -/
theorem told (h : Upkeeping s work w) {i : Nat} {t : Strand Unit} {r : CertificateRecord}
    (here : w.strands[i]? = some t) (hr : r ∈ upkeepRules.state w i t.run t.job) :
    ∃ e ∈ w.log, e.run = t.run ∧ r ∈ e.act.reads e.answer := by
  unfold Upkeeping at h
  induction h generalizing i t r with
  | refl =>
    obtain ⟨p, -, rfl⟩ := Weave.start_here here
    exact absurd hr List.not_mem_nil
  | @step w u hlead hstep ih =>
    have hnumbered := Weave.numbered_of_strides hlead
    cases hstep.turn with
    | stage here' hs hl _ =>
      rw [Rules.state_congr (Weave.path_congr hl i)] at hr
      rw [hl]
      rw [hs] at here
      obtain ⟨rfl, rfl⟩ | ⟨-, here⟩ := Weave.getElem?_set_cases here
      · have htold := ih here' hr
        exact htold
      · exact ih here hr
    | divide here' asks hs hl =>
      rw [Rules.state_congr (Weave.path_congr hl i)] at hr
      rw [hl]
      rw [hs] at here
      obtain ⟨rfl, rfl⟩ | ⟨-, here⟩ := Weave.getElem?_set_cases here
      · have htold := ih here' hr
        exact htold
      obtain here | ⟨hlen, hmem⟩ := Weave.getElem?_append_cases here
      · exact ih here hr
      · obtain ⟨j, hj, rfl⟩ := List.mem_map.mp hmem
        rw [Rules.state_eq_start hnumbered hlen] at hr
        have herrand := may hlead here' asks j hj
        cases j with
        | renewDue => exact herrand.elim
        | _ => exact absurd hr List.not_mem_nil
    | @answer k x a next answer v here' asks resumes _ strands log =>
      have hlog : u.log = w.log ++ [⟨k, x.run, a, answer⟩] := by
        rw [resumes, Weave.log_resume, log]
      have hmore : (∃ e ∈ w.log, e.run = t.run ∧ r ∈ e.act.reads e.answer) →
          ∃ e ∈ u.log, e.run = t.run ∧ r ∈ e.act.reads e.answer := fun ⟨e, he, hrest⟩ =>
        ⟨e, hlog ▸ List.mem_append_left _ he, hrest⟩
      subst resumes
      obtain ⟨rfl, rfl⟩ | ⟨hne, hold⟩ := Weave.getElem?_set_cases here
      · have hstate : upkeepRules.state v i x.run x.job = upkeepRules.state w i x.run x.job :=
          Rules.state_congr (Weave.path_congr log i)
        rw [Rules.state_resume_self, hstate] at hr
        obtain hr | hr := List.mem_append.mp hr
        · exact ⟨_, hlog ▸ List.mem_append_right _ List.mem_cons_self, rfl, hr⟩
        · have htold := ih here' hr
          exact hmore htold
      · have hpath : (v.resume k x a next answer).path i = w.path i :=
          (Weave.path_resume_of_ne hne).trans (Weave.path_congr log i)
        rw [Rules.state_congr hpath] at hr
        obtain hs | ⟨j, rfl, hs⟩ := strands
        · exact hmore (ih (hs ▸ hold) hr)
        · rw [hs] at hold
          obtain hold | ⟨hlen, hmem⟩ := Weave.getElem?_append_cases hold
          · exact hmore (ih hold hr)
          · obtain rfl := List.mem_singleton.mp hmem
            rw [Rules.state_eq_start hnumbered hlen] at hr
            obtain ⟨_, _, _, rfl⟩ | ⟨permits, task, rfl, hs, -⟩ := may hlead here' asks
            · exact absurd hr List.not_mem_nil
            · obtain rfl := List.mem_singleton.mp hr
              have htold := ih here' hs
              exact hmore htold

/-- **Who overwrites a revoked record has read it earlier.** Where a save puts a record that is not
revoked into the place of one that is, its run has read the record before, when the store held one
that was not revoked, and the record was saved as revoked in between. -/
theorem overwritten_from_before (h : Upkeeping s work w) {m m' : MemoryStore}
    (hm : (m.records.map (·.id)).Nodup) {before after : List Event} {i run : Nat}
    {t r : CertificateRecord} {reply : Except StoreError Unit}
    (hlog : w.log = before ++ ⟨i, run, .records (.save t), reply⟩ :: after)
    (hbefore : m.After before m') (hr : m'.load? t.id = some r) (hrevoked : r.status = .revoked)
    (ht : t.status ≠ .revoked) :
    ∃ earlier e since m₀ r₀, before = earlier ++ e :: since ∧ e.run = run ∧
      r₀ ∈ e.act.reads e.answer ∧ r₀.status ≠ .revoked ∧
      m.After earlier m₀ ∧ m₀.load? t.id = some r₀ ∧
      ∃ e' ∈ since, ∃ t', e'.act = .records (.save t') ∧ t'.id = t.id ∧ t'.status = .revoked := by
  obtain ⟨u, x, next, hlead, rfl, here, rfl, asks⟩ :=
    Weave.Leads.event h (fun _ _ => Weave.Stride.turn) rfl hlog
  obtain hsaved | ⟨r₀, hknown, hid, hopen⟩ := may hlead here asks
  · exact absurd hsaved ht
  obtain ⟨e, he, hrun, hreads⟩ := told hlead here hknown
  obtain ⟨earlier, since, hsplit⟩ := List.append_of_mem he
  rw [hsplit] at hbefore
  obtain ⟨m₀, hearlier, hsince, hload⟩ := hbefore.load?_of_reads hm hreads
  rw [hid] at hload
  refine ⟨earlier, e, since, m₀, r₀, hsplit, hrun, hreads, hopen, hearlier, hload, ?_⟩
  obtain hsame | ⟨e', he', t', key, hsave, hid', rfl⟩ := hsince.origin hr
  · obtain rfl := Option.some.inj (hload.symm.trans hsame)
    exact absurd hrevoked hopen
  · obtain rfl | he' := List.mem_cons.mp he'
    · obtain ⟨j, k, a, answer⟩ := e'
      obtain rfl : a = _ := hsave
      exact absurd hreads List.not_mem_nil
    · exact ⟨e', he', t', hsave, hid', hrevoked⟩

/-! ### A record that does not stay revoked -/

/-- A service with a configuration of its own. -/
def sampleService : Service where
  config := .embedded
  practice := {}

/-- A renewal and a revocation of one record. -/
def sampleWork : List Upkeep := [.renew "cert_1" { force := true }, .revoke "cert_1" .keyCompromise]

/-- Answers of a store with that record and of an authority that revokes what it is asked to and takes
no orders. -/
def overlapAnswers : (a : Act) → Option a.Answer
  | .now => some (0 : Nat)
  | .wallClock => some { seconds := 10 }
  | .freshKey _ => some (.ok { spec := .ecdsaP256, secret := [] })
  | .authority .ensureAccount | .authority (.revoke ..) => some (.ok (), (0 : Nat))
  | .authority (.newOrder _) => some (.error (.rejected "order" "blocked"), (0 : Nat))
  | .records (.resolve _) => some (.ok (some sampleIssued))
  | .records (.save _) => some (.ok ())
  | .watch => some true
  | .unwatch | .note _ => some ()
  | _ => none

/-- The renewal reads the record, the revocation does all of its work, and the renewal goes on. -/
def overlap : Option (Weave Unit) :=
  (List.replicate 2 0 ++ List.replicate 13 1 ++ List.replicate 32 0).foldlM
    (Weave.play sampleService.practice.program overlapAnswers)
    (Weave.start (sampleWork.map (Upkeep.program sampleService)))

/-- What the revocation saves in `overlap`. -/
def sampleRevoked : CertificateRecord :=
  { sampleIssued with status := .revoked, revocation := some .keyCompromise
                      updatedAt := { seconds := 10 } }

/-- What the renewal saves in `overlap`. -/
def sampleFailed : CertificateRecord :=
  sampleIssued.failedWith (.failed "example.com" .accountReady (.rejected "order" "blocked"))
    { seconds := 10 }

theorem overlap_log : overlap.map (fun w =>
    (w.log.drop 36, MemoryStore.follow { records := [sampleIssued] } (w.log.take 36))) =
    some ([⟨0, 0, .records (.save sampleFailed), .ok ()⟩], some { records := [sampleRevoked] }) := by
  rfl

theorem upkeeping_overlap : ∃ w before, Upkeeping sampleService sampleWork w ∧
    w.log = before ++ [⟨0, 0, .records (.save sampleFailed), .ok ()⟩] ∧
    MemoryStore.After { records := [sampleIssued] } before { records := [sampleRevoked] } := by
  obtain ⟨w, hw, hlog⟩ := Option.map_eq_some_iff.mp overlap_log
  obtain ⟨hdrop, hfollow⟩ := Prod.mk.inj hlog
  refine ⟨w, w.log.take 36, Weave.strides_of_play hw, ?_, MemoryStore.after_of_follow hfollow⟩
  rw [← hdrop, List.take_append_drop]

/-- The failure of the renewal is saved over the revoked record, which the renewal had read before
that was revoked. -/
theorem overwritten_from_before_overlap : ∃ w before, Upkeeping sampleService sampleWork w ∧
    w.log = before ++ [⟨0, 0, .records (.save sampleFailed), .ok ()⟩] ∧
    ∃ earlier e since m₀ r₀, before = earlier ++ e :: since ∧ e.run = 0 ∧
      r₀ ∈ e.act.reads e.answer ∧ r₀.status ≠ .revoked ∧
      MemoryStore.After { records := [sampleIssued] } earlier m₀ ∧ m₀.load? "cert_1" = some r₀ ∧
      ∃ e' ∈ since, ∃ t', e'.act = .records (.save t') ∧ t'.id = "cert_1" ∧ t'.status = .revoked := by
  obtain ⟨w, before, hw, hlog, hbefore⟩ := upkeeping_overlap
  exact ⟨w, before, hw, hlog, overwritten_from_before hw (by decide) hlog hbefore
    (r := sampleRevoked) rfl rfl (by decide)⟩

/-- What was revoked in the store does not stay so. -/
theorem revoked_overwritten : ¬ ∀ (s : Service) (work : List Upkeep) (w : Weave Unit)
    (m m' : MemoryStore) (before after : List Event) (i run : Nat) (t r : CertificateRecord)
    (reply : Except StoreError Unit), Upkeeping s work w → (m.records.map (·.id)).Nodup →
    w.log = before ++ ⟨i, run, .records (.save t), reply⟩ :: after → m.After before m' →
    m'.load? t.id = some r → r.status = .revoked → t.status = .revoked := by
  intro h
  obtain ⟨w, before, hw, hlog, hbefore⟩ := upkeeping_overlap
  exact absurd (h _ _ w _ _ before [] 0 0 sampleFailed sampleRevoked (.ok ()) hw (by decide) hlog
    hbefore rfl rfl) (by decide)

end Upkeeping

end CertSteward
