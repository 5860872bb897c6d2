import CertSteward.Proofs.Record.Window
import CertSteward.Renewal.Sweep

/-!
# Which certificates are selected

Whether a record is due has an answer if the window ends inside the calendar, or if there is no
expiry to ask for. A selection is the records that are due, in their order.

## Main results

* `CertificateRecord.needsRenewal?_eq`, `CertificateRecord.isDue?_eq` — the answers if the window
  has an end
* `eq_filter_of_selectDue?`, `selectDue?_eq_filter` — what is selected
-/

namespace CertSteward

variable {w : RenewalWindow} {now close : Instant} {r : CertificateRecord}
  {rs due : List CertificateRecord}

namespace CertificateRecord

/-- Whether the expiry is no later than that. -/
def expiresBy (r : CertificateRecord) (t : Instant) : Bool := r.expiresAt.any fun e => decide (e ≤ t)

theorem expiresBy_iff {t : Instant} : r.expiresBy t = true ↔ ∃ e, r.expiresAt = some e ∧ e ≤ t := by
  rw [expiresBy]
  cases r.expiresAt <;> simp

theorem expiresBy_of_isSome {t : Instant} (h : r.expiresAt.isSome = false) :
    r.expiresBy t = false := by
  rw [expiresBy, Option.isSome_eq_false_iff.mp h |> Option.isNone_iff_eq_none.mp]
  rfl

/-- What expires by a time expires by a later one. -/
theorem expiresBy_mono {t t' : Instant} (hle : t ≤ t') (h : r.expiresBy t = true) :
    r.expiresBy t' = true := by
  obtain ⟨e, he, het⟩ := expiresBy_iff.mp h
  exact expiresBy_iff.mpr ⟨e, he, Instant.le_trans het hle⟩

/-- The expiry lies in the window if it is no later than its end. -/
theorem needsRenewal?_eq (h : w.close? now = some close) :
    r.needsRenewal? w now = some (r.expiresBy close) := by
  rw [needsRenewal?, expiresBy]
  cases r.expiresAt with
  | none => rfl
  | some e => exact congrArg (Option.map _) h

/-- A record is due if it is issued, renewed unasked, and its expiry lies in the window. -/
theorem isDue?_eq (h : w.close? now = some close) :
    r.isDue? w now = some (decide (r.status = .issued ∧ r.autoRenew = true) && r.expiresBy close) := by
  rw [isDue?, needsRenewal?_eq h]
  split
  · rename_i hrenewed
    rw [decide_eq_true hrenewed, Bool.true_and]
  · rename_i hnot
    rw [decide_eq_false hnot, Bool.false_and]

end CertificateRecord

theorem selectDue?_cons : selectDue? (r :: rs) w now = (r.isDue? w now).bind fun isDue =>
    (selectDue? rs w now).map ((if isDue then [r] else []) ++ ·) := by
  unfold selectDue?
  rw [List.filterMapM_cons]
  cases r.isDue? w now with
  | none => rfl
  | some isDue =>
    cases isDue with
    | false => exact Option.map_id'.symm
    | true => exact (Option.map_eq_bind ..).symm

/-- What is selected is what is due. -/
theorem eq_filter_of_selectDue? (h : selectDue? rs w now = some due) :
    due = rs.filter fun r => r.isDue? w now == some true := by
  induction rs generalizing due with
  | nil =>
    cases h
    rfl
  | cons r rs ih =>
    rw [selectDue?_cons] at h
    obtain ⟨isDue, hisDue, h⟩ := Option.bind_eq_some_iff.mp h
    obtain ⟨rest, hrest, rfl⟩ := Option.map_eq_some_iff.mp h
    rw [List.filter_cons, hisDue, ih hrest]
    cases isDue <;> rfl

/-- If each record is due or is not, there is a selection. -/
theorem selectDue?_eq_filter {p : CertificateRecord → Bool}
    (h : ∀ r ∈ rs, r.isDue? w now = some (p r)) : selectDue? rs w now = some (rs.filter p) := by
  induction rs with
  | nil => rfl
  | cons r rs ih =>
    obtain ⟨hr, hrs⟩ := List.forall_mem_cons.mp h
    rw [selectDue?_cons, hr, ih hrs, List.filter_cons]
    cases p r <;> rfl

end CertSteward
