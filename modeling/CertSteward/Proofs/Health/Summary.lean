import CertSteward.Health.Summary
import CertSteward.Proofs.Record.Stored
import CertSteward.Proofs.Renewal.Selection
import Mathlib.Data.List.Forall2

/-!
# What a summary of certificates says

A summary reads the expiry of a record in three ways: against the present time and the end of the
window, which gives the group it is counted in, against the end of the window alone, which gives the
mark for renewal, and as a number of days. All of them come down to the order of three instants, the
expiry, the present and the end of the window, and a selection looks at the same end.

## Main definitions

* `CertificateRecord.entry` — the entry of a record, told the end of the window
* `CertificateHealth.Describes`, `HealthSummary.Accounts` — what an entry and a summary say
* `CertificateHealth.Moves` — how an entry may change later on

## Main results

* `HealthSummary.of?_eq` — the summary if the window has an end
* `CertificateHealth.describes_entry`, `CertificateHealth.moves_entry` — one entry
* `HealthSummary.of?_adds_up` — the whole summary, now and later on
* `HealthSummary.of?_moves_back` — inside a leap second the window ends earlier
-/

namespace CertSteward

variable {w : RenewalWindow} {now now' close close' : Instant} {r : CertificateRecord}
  {rs : List CertificateRecord} {h : CertificateHealth}

/-! ### Entries -/

/-- The entry of a record if the window ends at `close`. -/
def CertificateRecord.entry (close now : Instant) (r : CertificateRecord) : CertificateHealth :=
  { id := r.id, domain := r.primaryDomain, status := r.status, expiresAt := r.expiresAt
    daysUntilExpiry := r.daysUntilExpiry now, needsRenewal := r.expiresBy close }

theorem CertificateHealth.of?_eq (hclose : w.close? now = some close) :
    of? r w now = some (r.entry close now) := by
  rw [of?, CertificateRecord.needsRenewal?_eq hclose]
  rfl

/-- The summary of records if the window has an end. -/
theorem HealthSummary.of?_eq (hclose : w.close? now = some close) :
    of? rs w now = some
      (let hs := rs.map (·.entry close now)
       { total := rs.length
         valid := hs.countP (·.isValid now)
         expiring := hs.countP (·.isExpiring now)
         expired := hs.countP (·.isExpired now)
         failed := hs.countP (·.status == .failed)
         certificates := hs }) := by
  have hentry : (fun r => CertificateHealth.of? r w now) =
      fun r => pure (r.entry close now) := funext fun r => CertificateHealth.of?_eq hclose
  rw [of?, hentry, List.mapM_pure]
  rfl

/-! ### One record -/

namespace CertificateHealth

/-- What the entry of a record says of it. -/
structure Describes (w : RenewalWindow) (now : Instant) (due : List CertificateRecord)
    (r : CertificateRecord) (h : CertificateHealth) : Prop where
  id : h.id = r.id
  domain : h.domain = r.primaryDomain
  status : h.status = r.status
  expiresAt : h.expiresAt = r.expiresAt
  days : h.daysUntilExpiry = r.daysUntilExpiry now
  /-- What is issued and renewed unasked is selected if it has run out or will in the window. -/
  selected : r.status = .issued → r.autoRenew = true →
    h.isExpired now = true ∨ h.isExpiring now = true → r ∈ due
  /-- Nothing is selected that expires behind the window. -/
  spared : h.isValid now = true → r ∉ due
  /-- Fewer days than those of the window are in it, where it has its whole length. -/
  near : w.IsWhole now → ∀ d ∈ h.daysUntilExpiry, d < w.days → h.needsRenewal = true
  /-- A day more is behind it. -/
  far : ∀ d ∈ h.daysUntilExpiry, w.days + 1 ≤ d → h.needsRenewal = false

/-- How the entry of a record may change later on. -/
structure Moves (w : RenewalWindow) (now now' : Instant) (h h' : CertificateHealth) : Prop where
  expired : h.isExpired now = true → h'.isExpired now' = true
  expiring : w.IsWhole now' → h.isExpiring now = true →
    h'.isExpiring now' = true ∨ h'.isExpired now' = true
  valid : h.isValid now = true →
    h'.isValid now' = true ∨ h'.isExpiring now' = true ∨ h'.isExpired now' = true

theorem isExpired_entry : (r.entry close now).isExpired now = r.expiresBy now := rfl

theorem isExpiring_entry : (r.entry close now).isExpiring now =
    (r.expiresAt.isSome && !r.expiresBy now && r.expiresBy close) := rfl

theorem isValid_entry : (r.entry close now).isValid now =
    (r.expiresAt.isSome && !r.expiresBy now && !r.expiresBy close) := rfl

/-- An entry says of its record what a selection and the number of days say of it. -/
theorem describes_entry (hproper : ∀ e ∈ r.expiresAt, e.IsProper) (hnow : now.IsProper)
    (hclose : w.close? now = some close) (hr : r ∈ rs) :
    Describes w now (rs.filter fun r => decide (r.status = .issued ∧ r.autoRenew = true) &&
      r.expiresBy close) r (r.entry close now) where
  id := rfl
  domain := rfl
  status := rfl
  expiresAt := rfl
  days := rfl
  selected hissued hauto hgroup := by
    have hby : r.expiresBy close = true := by
      obtain hexpired | hexpiring := hgroup
      · exact CertificateRecord.expiresBy_mono (RenewalWindow.le_close hclose) hexpired
      · rw [isExpiring_entry, Bool.and_eq_true] at hexpiring
        exact hexpiring.2
    rw [List.mem_filter, hby, Bool.and_true]
    exact ⟨hr, decide_eq_true ⟨hissued, hauto⟩⟩
  spared hvalid hmem := by
    rw [isValid_entry, Bool.and_eq_true, Bool.not_eq_true'] at hvalid
    rw [List.mem_filter, hvalid.2, Bool.and_false] at hmem
    exact Bool.false_ne_true hmem.2
  near hwhole d hd hlt := by
    obtain ⟨e, he, rfl⟩ := Option.map_eq_some_iff.mp hd
    exact CertificateRecord.expiresBy_iff.mpr
      ⟨e, he, RenewalWindow.le_close_of_daysUntil_lt (hproper e he) hnow hwhole hclose hlt⟩
  far d hd hle := by
    obtain ⟨e, he, rfl⟩ := Option.map_eq_some_iff.mp hd
    have hlt := RenewalWindow.close_lt_of_le_daysUntil (hproper e he) hnow hclose hle
    rw [← Bool.not_eq_true]
    intro hby
    obtain ⟨e', he', hle'⟩ := CertificateRecord.expiresBy_iff.mp hby
    obtain rfl := Option.some.inj (he.symm.trans he')
    exact Instant.not_le.mpr hlt hle'

/-- An entry moves from one group to the next. -/
theorem moves_entry (hle : now ≤ now') (hclose : w.close? now = some close)
    (hclose' : w.close? now' = some close') :
    Moves w now now' (r.entry close now) (r.entry close' now') where
  expired := CertificateRecord.expiresBy_mono hle
  expiring hwhole hexpiring := by
    rw [isExpiring_entry, Bool.and_eq_true, Bool.and_eq_true] at hexpiring
    have hby : r.expiresBy close' = true := CertificateRecord.expiresBy_mono
      (RenewalWindow.close_le_close hwhole hle hclose hclose') hexpiring.2
    rw [isExpiring_entry, isExpired_entry, hexpiring.1.1, hby]
    cases r.expiresBy now' <;> simp
  valid hvalid := by
    rw [isValid_entry, Bool.and_eq_true, Bool.and_eq_true] at hvalid
    rw [isValid_entry, isExpiring_entry, isExpired_entry, hvalid.1.1]
    cases r.expiresBy now' <;> cases r.expiresBy close' <;> simp

end CertificateHealth

/-! ### All records -/

/-- A record that passes its check has dates if its status says so. -/
theorem CertificateRecord.hasExpiry_eq (hr : r.invariantFault? = none) :
    r.status.hasExpiry = r.expiresAt.isSome := by
  rw [invariantFault?] at hr
  split at hr
  · cases hr
  · rename_i hexpiry
    exact Decidable.not_not.mp hexpiry

namespace HealthSummary

/-- What a summary says of the records that it is of, and of what is selected among them. -/
structure Accounts (rs : List CertificateRecord) (w : RenewalWindow) (now : Instant)
    (due : List CertificateRecord) (s : HealthSummary) : Prop where
  total : s.total = rs.length
  /-- Each record is counted once, or it is pending. -/
  sum : s.valid + s.expiring + s.expired + s.failed + rs.countP (·.status == .pending) = s.total
  valid : s.valid = s.certificates.countP (·.isValid now)
  expiring : s.expiring = s.certificates.countP (·.isExpiring now)
  expired : s.expired = s.certificates.countP (·.isExpired now)
  failed : s.failed = s.certificates.countP (·.status == .failed)
  /-- The entries are those of the records, in their order. -/
  entries : List.Forall₂ (CertificateHealth.Describes w now due) rs s.certificates

/-- A record that passes its check is in one group. -/
theorem count_entry (close now : Instant) (hr : r.invariantFault? = none) :
    let h := r.entry close now
    (if h.isValid now = true then 1 else 0) + (if h.isExpiring now = true then 1 else 0) +
      (if h.isExpired now = true then 1 else 0) + (if (h.status == .failed) = true then 1 else 0) +
      (if (r.status == .pending) = true then 1 else 0) = 1 := by
  have hexpiry := CertificateRecord.hasExpiry_eq hr
  have hstatus : (r.entry close now).status = r.status := rfl
  intro h
  rw [CertificateHealth.isValid_entry, CertificateHealth.isExpiring_entry,
    CertificateHealth.isExpired_entry, hstatus, ← hexpiry]
  cases hs : r.status with
  | pending | failed =>
    -- nothing expires
    rw [hs] at hexpiry
    rw [CertificateRecord.expiresBy_of_isSome hexpiry.symm]
    rfl
  | issued | expired | revoked => cases r.expiresBy now <;> cases r.expiresBy close <;> rfl

/-- Records that pass their checks are counted once. -/
theorem sum_countP (hchecked : ∀ r ∈ rs, r.invariantFault? = none) :
    let hs := rs.map (·.entry close now)
    hs.countP (·.isValid now) + hs.countP (·.isExpiring now) + hs.countP (·.isExpired now) +
      hs.countP (·.status == .failed) + rs.countP (·.status == .pending) = rs.length := by
  induction rs with
  | nil => rfl
  | cons r rs ih =>
    obtain ⟨hr, hrs⟩ := List.forall_mem_cons.mp hchecked
    have hone := count_entry close now hr
    have hrest := ih hrs
    simp only [List.map_cons, List.countP_cons, List.length_cons] at hone hrest ⊢
    omega

/-- **What a summary says, and how it goes with a selection.** For records that pass their checks
and a window that has an end there is a summary and a selection. Each record is counted once or is
pending, and the entries are those of the records in their order; what has run out or will in the
window is selected if it is issued and renewed unasked, and nothing else is; the number of days goes
with the mark for renewal. Later on a record has only moved on from behind the window to inside it
and to run out, and what was due still is. -/
theorem of?_adds_up (hchecked : ∀ r ∈ rs, r.invariantFault? = none)
    (hproper : ∀ r ∈ rs, ∀ e ∈ r.expiresAt, e.IsProper) (hnow : now.IsProper)
    (hclose : (w.close? now).isSome) :
    ∃ s due, of? rs w now = some s ∧ selectDue? rs w now = some due ∧ s.Accounts rs w now due ∧
      ∀ now', now ≤ now' → (w.close? now').isSome →
        ∃ s' due', of? rs w now' = some s' ∧ selectDue? rs w now' = some due' ∧
          List.Forall₂ (CertificateHealth.Moves w now now') s.certificates s'.certificates ∧
          (w.IsWhole now' → ∀ r ∈ due, r ∈ due') := by
  obtain ⟨close, hclose⟩ := Option.isSome_iff_exists.mp hclose
  refine ⟨_, _, of?_eq hclose, selectDue?_eq_filter fun r _ => CertificateRecord.isDue?_eq hclose,
    ⟨rfl, sum_countP hchecked, rfl, rfl, rfl, rfl, ?_⟩, fun now' hle hclose' => ?_⟩
  · rw [List.forall₂_map_right_iff, List.forall₂_same]
    exact fun r hr => CertificateHealth.describes_entry (hproper r hr) hnow hclose hr
  · obtain ⟨close', hclose'⟩ := Option.isSome_iff_exists.mp hclose'
    refine ⟨_, _, of?_eq hclose', selectDue?_eq_filter fun r _ => CertificateRecord.isDue?_eq hclose',
      ?_, fun hwhole r hr => ?_⟩
    · rw [List.forall₂_map_left_iff, List.forall₂_map_right_iff, List.forall₂_same]
      exact fun r _ => CertificateHealth.moves_entry hle hclose hclose'
    · have hends := RenewalWindow.close_le_close hwhole hle hclose hclose'
      rw [List.mem_filter, Bool.and_eq_true] at hr ⊢
      exact ⟨hr.1, hr.2.1, CertificateRecord.expiresBy_mono hends hr.2.2⟩

/-- A record of that name, status and expiry. -/
def sampleMember (id : String) (status : Status) (expiresAt : Option Instant) :
    CertificateRecord where
  id := id
  primaryDomain := "example.com"
  autoRenew := true
  status := status
  issuedAt := expiresAt.map fun _ => { seconds := 1000000000 }
  expiresAt := expiresAt
  createdAt := { seconds := 1000000000 }
  updatedAt := { seconds := 1000000000 }

/-- One record of each group and a pending one; the first two expire 31 and 10 days after noon. -/
def sampleFleet : List CertificateRecord :=
  [sampleMember "cert_1" .issued (some { seconds := 1711972800 }),
    sampleMember "cert_2" .issued (some { seconds := 1710158400 }),
    sampleMember "cert_3" .expired (some sampleBeforeNoon),
    sampleMember "cert_4" .failed none, sampleMember "cert_5" .pending none]

/-- At noon each group has one record, and the one that expires soon is selected; it still is a day
later. -/
theorem of?_adds_up_sampleFleet :
    (∀ r ∈ sampleFleet, r.invariantFault? = none) ∧
      (∀ r ∈ sampleFleet, ∀ e ∈ r.expiresAt, e.IsProper) ∧ sampleNoon.IsProper ∧
      (({} : RenewalWindow).close? sampleNoon).isSome ∧
      ∃ s due, of? sampleFleet {} sampleNoon = some s ∧
        selectDue? sampleFleet {} sampleNoon = some due ∧ s.Accounts sampleFleet {} sampleNoon due ∧
        s.valid = 1 ∧ s.expiring = 1 ∧ s.expired = 1 ∧ s.failed = 1 ∧ due.map (·.id) = ["cert_2"] ∧
        ∃ due', selectDue? sampleFleet {} { seconds := 1709380800 } = some due' ∧
          ∀ r ∈ due, r ∈ due' := by
  have hchecked : ∀ r ∈ sampleFleet, r.invariantFault? = none := by decide
  have hproper : ∀ r ∈ sampleFleet, ∀ e ∈ r.expiresAt, e.IsProper := by decide
  have hnow : sampleNoon.IsProper := by decide
  have hclose : (({} : RenewalWindow).close? sampleNoon).isSome := by decide
  obtain ⟨s, due, hs, hdue, haccounts, hlater⟩ := of?_adds_up hchecked hproper hnow hclose
  obtain ⟨-, due', -, hdue', -, hstay⟩ :=
    hlater { seconds := 1709380800 } (by decide) (by decide)
  have hcounts : s.valid = 1 ∧ s.expiring = 1 ∧ s.expired = 1 ∧ s.failed = 1 := by
    cases hs
    decide
  have hselected : due.map (·.id) = ["cert_2"] := by
    cases hdue
    decide
  exact ⟨hchecked, hproper, hnow, hclose, s, due, hs, hdue, haccounts, hcounts.1, hcounts.2.1,
    hcounts.2.2.1, hcounts.2.2.2, hselected, due', hdue', hstay (by decide)⟩

/-- A record that expires seven tenths into the last second of 1 January 2017. -/
def sampleEdge : CertificateRecord :=
  sampleMember "cert_1" .issued (some { seconds := 1483315199, nanos := 700000000 })

/-- The end of 2016, a tenth of a second before the leap second that ended it. -/
def sampleBeforeLeap : Instant := { seconds := 1483228799, nanos := 900000000 }

/-- The middle of that leap second. -/
def sampleInLeap : Instant := { seconds := 1483228799, nanos := 1500000000 }

/-- In a leap second the window of a day ends earlier than just before: a record goes back from
inside it to behind it and is no longer due, and less than a day is left without the mark. -/
theorem of?_moves_back :
    sampleEdge.invariantFault? = none ∧ sampleEdge.HasReadings ∧ sampleBeforeLeap.IsReading ∧
      sampleInLeap.IsReading ∧ sampleBeforeLeap ≤ sampleInLeap ∧
      (∃ s, of? [sampleEdge] { days := 1 } sampleBeforeLeap = some s ∧ s.expiring = 1 ∧
        selectDue? [sampleEdge] { days := 1 } sampleBeforeLeap = some [sampleEdge]) ∧
      ∃ s, of? [sampleEdge] { days := 1 } sampleInLeap = some s ∧ s.valid = 1 ∧
        (∀ h ∈ s.certificates, h.daysUntilExpiry = some 0 ∧ h.needsRenewal = false) ∧
        selectDue? [sampleEdge] { days := 1 } sampleInLeap = some [] := by
  have hreading : ∀ a ∈ sampleEdge.issuedAt, a.IsReading := by
    rintro a ⟨⟩
    exact ⟨by decide, by decide, by decide⟩
  have hreading' : ∀ a ∈ sampleEdge.expiresAt, a.IsReading := by
    rintro a ⟨⟩
    exact ⟨by decide, by decide, by decide⟩
  refine ⟨by decide, ⟨hreading, hreading', ?_, ?_⟩, ?_, ?_, by decide, ⟨_, rfl, ?_⟩, _, rfl, ?_⟩
  · exact ⟨by decide, by decide, by decide⟩
  · exact ⟨by decide, by decide, by decide⟩
  · exact ⟨by decide, by decide, by decide⟩
  · exact ⟨by decide, by decide, by decide⟩
  · exact ⟨by decide, by decide⟩
  · exact ⟨by decide, by decide, by decide⟩

end HealthSummary

end CertSteward
