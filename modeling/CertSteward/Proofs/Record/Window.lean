import CertSteward.Proofs.Record.Days

/-!
# The end of the window

The window ends a number of whole days after the present reading of the clock. If that reading is
inside a leap second, the leap second has passed a day later, and the end is at the same part of the
second before it: just before the leap second the window ended later. So inside leap seconds a
window of at least one day is not quite as long as elsewhere, and everything that depends on its
length is said of the other readings.

## Main definitions

* `Instant.IsProper` — nanoseconds in their range
* `RenewalWindow.IsWhole` — readings from which the window has its whole length

## Main results

* `RenewalWindow.close?_spec` — where the window ends
* `RenewalWindow.close_le_close` — it ends no earlier later on
* `RenewalWindow.le_close_of_daysUntil_lt`, `RenewalWindow.close_lt_of_le_daysUntil` — what the
  number of days to an expiry says of the window
-/

namespace CertSteward

/-- The nanoseconds are in their range, which leap seconds need in full. -/
def Instant.IsProper (a : Instant) : Prop := a.nanos < 2000000000

instance (a : Instant) : Decidable a.IsProper := inferInstanceAs (Decidable (a.nanos < _))

section

variable {e now : Instant} {n : Nat}

/-- Less than a number of days is less than that number of whole days. -/
theorem sub_lt_of_daysUntil_lt (h : daysUntil e now < n) : e.sub now < n * dayNanos := by
  rw [daysUntil_eq] at h
  unfold dayNanos at *
  split at h <;> omega

/-- A positive number of days has passed in full. -/
theorem le_sub_of_lt_daysUntil (h : n < daysUntil e now) : (n + 1) * dayNanos ≤ e.sub now := by
  rw [daysUntil_eq] at h
  simp only [justMissed_iff] at h
  unfold dayNanos at *
  split at h <;> omega

end

/-- The time between two readings, and the leap second that may be in it. -/
theorem Instant.sub_cases (a b : Instant) : ∃ leap : Int,
    a.sub b = (a.seconds - b.seconds + leap) * 1000000000 + ((a.nanos : Int) - b.nanos) ∧
      (leap = 0 ∨ leap = 1 ∧ 1000000000 ≤ b.nanos ∧ b.seconds % 86400 < a.seconds % 86400 ∨
        leap = -1 ∧ 1000000000 ≤ a.nanos ∧ a.seconds % 86400 < b.seconds % 86400) := by
  refine ⟨_, rfl, ?_⟩
  unfold secondOfDay daySeconds
  split
  · split <;> omega
  · split
    · split <;> omega
    · exact .inl rfl

namespace RenewalWindow

variable {w : RenewalWindow} {e now now' close close' : Instant}

/-- A reading from which the window has its whole length. -/
def IsWhole (w : RenewalWindow) (now : Instant) : Prop := w.days = 0 ∨ now.IsOrdinary

instance (w : RenewalWindow) (now : Instant) : Decidable (w.IsWhole now) :=
  inferInstanceAs (Decidable (_ ∨ _))

/-- Where the window ends. -/
theorem close?_spec (h : w.close? now = some close) :
    close.seconds = now.seconds + w.days * 86400 ∧
      (w.IsWhole now → close.nanos = now.nanos) ∧
      (¬ w.IsWhole now → close.nanos + 1000000000 = now.nanos) := by
  have hwhole : w.IsWhole now ↔ w.seconds = 0 ∨ now.nanos < 1000000000 := by
    unfold IsWhole Instant.IsOrdinary seconds
    omega
  rw [hwhole]
  unfold close? Instant.addSeconds? at h
  split at h
  · rename_i hlong
    obtain ⟨-, ⟨⟩⟩ := Option.ite_none_right_eq_some.mp h
    exact ⟨by simp [seconds], fun _ => rfl, fun hshort => absurd hlong hshort⟩
  · rename_i hshort
    obtain ⟨-, ⟨⟩⟩ := Option.ite_none_right_eq_some.mp h
    exact ⟨by simp [seconds], fun hlong => absurd hlong hshort, fun _ => by simp; omega⟩

/-- The window ends no earlier than now. -/
theorem le_close (h : w.close? now = some close) : now ≤ close := by
  obtain ⟨hseconds, hwhole, -⟩ := close?_spec h
  rw [Instant.le_def]
  by_cases hdays : w.days = 0
  · exact .inr ⟨by omega, Nat.le_of_eq (hwhole (.inl hdays)).symm⟩
  · exact .inl (by omega)

/-- The window ends no earlier later on, if it has its whole length then. -/
theorem close_le_close (hwhole : w.IsWhole now') (hle : now ≤ now') (h : w.close? now = some close)
    (h' : w.close? now' = some close') : close ≤ close' := by
  obtain ⟨hseconds, hnanos, hleap⟩ := close?_spec h
  obtain ⟨hseconds', hnanos', -⟩ := close?_spec h'
  rw [Instant.le_def] at hle ⊢
  obtain hlt | ⟨heq, hle⟩ := hle
  · exact .inl (by omega)
  · have hback : w.IsWhole now := hwhole.imp_right fun hordinary => Nat.lt_of_le_of_lt hle hordinary
    exact .inr ⟨by omega, by rw [hnanos hback, hnanos' hwhole]; exact hle⟩

/-- An expiry less than that number of days away is in the window. -/
theorem le_close_of_daysUntil_lt (he : e.IsProper) (hnow : now.IsProper) (hwhole : w.IsWhole now)
    (h : w.close? now = some close) (hdays : daysUntil e now < w.days) : e ≤ close := by
  obtain ⟨hseconds, hnanos, -⟩ := close?_spec h
  obtain ⟨leap, hsub, hleap⟩ := e.sub_cases now
  unfold Instant.IsProper at he hnow
  rw [Instant.le_def, hseconds, hnanos hwhole]
  obtain hzero | hordinary := hwhole
  · -- a window without length: at least a second has passed
    rw [hzero] at hdays
    have hpassed := daysUntil_neg_iff.mp hdays
    omega
  · have hlt := sub_lt_of_daysUntil_lt hdays
    unfold Instant.IsOrdinary at hordinary
    unfold dayNanos at hlt
    omega

/-- An expiry a day more away is behind the window. -/
theorem close_lt_of_le_daysUntil (he : e.IsProper) (hnow : now.IsProper)
    (h : w.close? now = some close) (hdays : w.days + 1 ≤ daysUntil e now) : close < e := by
  obtain ⟨hseconds, -, -⟩ := close?_spec h
  obtain ⟨leap, hsub, hleap⟩ := e.sub_cases now
  have hle := le_sub_of_lt_daysUntil hdays
  unfold Instant.IsProper at he hnow
  unfold dayNanos at hle
  rw [Instant.lt_def, hseconds]
  omega

end RenewalWindow

end CertSteward
