import CertSteward.Proofs.Time.Order
import CertSteward.Record.Record

/-!
# Whole days to an expiry

The days to an expiry are counted in two steps: parts of a second are dropped first, and the whole
seconds that are left are divided by a day and rounded down. The first step rounds towards zero, so
it rounds up what has passed already. The two steps make the floor of the exact quotient but for
expiries that passed less than a second over a whole number of days ago, where there is one day too
many; in particular a certificate that ran out less than a second ago is said to have zero days
left.

Readings inside a leap second have their place in the order of readings, but the time between two
readings does not always grow with that order. So what the days have to do with the order is said of
ordinary readings, those outside of leap seconds.

## Main definitions

* `dayNanos` — a day in nanoseconds
* `JustMissed` — times that passed less than a second over a whole number of days ago
* `Instant.position`, `Instant.IsOrdinary` — readings as points on a line

## Main results

* `daysUntil_eq` — the floor of the exact quotient, or one more for times that were just missed
* `daysUntil_neg_iff`, `daysUntil_mono` — the sign of a number of days, and its growth
* `daysUntil_rounds` — how days are rounded, and how they go with the order of readings
* `daysUntil_not_floor` — they are not the floor, nor negative for all that has passed
-/

namespace CertSteward

/-- Nanoseconds in a day. -/
def dayNanos : Int := 86400 * 1000000000

/-- A time that has passed, by less than a second over a whole number of days. -/
def JustMissed (d : Int) : Prop :=
  ∃ k : Nat, -(k * dayNanos) - 1000000000 < d ∧ d < -(k * dayNanos)

/-- A time was just missed if what it lacks to the last whole day is too little for a second. -/
theorem justMissed_iff {d : Int} :
    JustMissed d ↔ d < 0 ∧ dayNanos - 1000000000 < d % dayNanos := by
  constructor
  · rintro ⟨k, hlt, hgt⟩
    have hnonneg : (0 : Int) ≤ k * dayNanos := Int.mul_nonneg (Int.natCast_nonneg k) (by decide)
    have hmod : d % dayNanos = (d + (k + 1) * dayNanos) % dayNanos := by
      rw [Int.add_mul_emod_self_right]
    rw [hmod, Int.add_mul, Int.one_mul]
    unfold dayNanos at *
    omega
  · rintro ⟨hneg, hmod⟩
    refine ⟨(-(d / dayNanos) - 1).toNat, ?_⟩
    unfold dayNanos at *
    omega

instance (d : Int) : Decidable (JustMissed d) := decidable_of_iff _ justMissed_iff.symm

/-- Dropping parts of a second and rounding down to days is rounding down to days, but for times
that were just missed. -/
theorem tdiv_second_ediv_day (d : Int) :
    d.tdiv 1000000000 / 86400 = d / dayNanos + if JustMissed d then 1 else 0 := by
  have hdrop : d.tdiv 1000000000 = d / 1000000000 + if 0 ≤ d ∨ 1000000000 ∣ d then 0 else 1 :=
    Int.tdiv_eq_ediv
  rw [hdrop]
  simp only [justMissed_iff]
  unfold dayNanos
  split <;> split <;> omega

namespace Instant

/-- A reading outside of leap seconds. -/
def IsOrdinary (a : Instant) : Prop := a.nanos < 1000000000

instance (a : Instant) : Decidable a.IsOrdinary := inferInstanceAs (Decidable (a.nanos < _))

/-- Nanoseconds since the start of 1970, leap seconds left out. -/
def position (a : Instant) : Int := a.seconds * 1000000000 + a.nanos

variable {a b : Instant}

/-- Outside of leap seconds the time between two readings is exact. -/
theorem sub_eq_position (ha : a.IsOrdinary) (hb : b.IsOrdinary) :
    a.sub b = a.position - b.position := by
  unfold IsOrdinary at ha hb
  unfold sub position
  rw [if_neg (Nat.not_le.mpr ha), if_neg (Nat.not_le.mpr hb)]
  simp only [ite_self]
  omega

theorem lt_iff_position (ha : a.IsOrdinary) (hb : b.IsOrdinary) :
    a < b ↔ a.position < b.position := by
  rw [lt_def]
  unfold IsOrdinary at ha hb
  unfold position
  omega

theorem le_iff_position (ha : a.IsOrdinary) (hb : b.IsOrdinary) :
    a ≤ b ↔ a.position ≤ b.position := by
  rw [← not_lt, lt_iff_position hb ha, Int.not_lt]

end Instant

section

variable {e e' now now' : Instant}

/-- **Whole days to an expiry.** -/
theorem daysUntil_eq (e now : Instant) :
    daysUntil e now = e.sub now / dayNanos + if JustMissed (e.sub now) then 1 else 0 :=
  tdiv_second_ediv_day (e.sub now)

/-- The number of days is negative once a whole second has passed. -/
theorem daysUntil_neg_iff : daysUntil e now < 0 ↔ e.sub now ≤ -1000000000 := by
  rw [daysUntil_eq]
  simp only [justMissed_iff]
  unfold dayNanos
  split <;> omega

/-- More time is no fewer days. -/
theorem daysUntil_mono (h : e.sub now ≤ e'.sub now') : daysUntil e now ≤ daysUntil e' now' :=
  Int.ediv_le_ediv (by decide) (Int.tdiv_le_tdiv (by decide) h)

/-- **How days are rounded.** They are the floor of the exact quotient, or one more if the expiry
was just missed; they are negative once a whole second has passed; and of ordinary readings, a later
expiry is no fewer days away, and no more days away later on. -/
theorem daysUntil_rounds (e now : Instant) :
    daysUntil e now = e.sub now / dayNanos + (if JustMissed (e.sub now) then 1 else 0) ∧
      (daysUntil e now < 0 ↔ e.sub now ≤ -1000000000) ∧
      (e.IsOrdinary → now.IsOrdinary →
        e.sub now = e.position - now.position ∧ (e < now ↔ e.sub now < 0) ∧
        (∀ e', e'.IsOrdinary → e ≤ e' → daysUntil e now ≤ daysUntil e' now) ∧
        ∀ now', now'.IsOrdinary → now ≤ now' → daysUntil e now' ≤ daysUntil e now) := by
  refine ⟨daysUntil_eq e now, daysUntil_neg_iff, fun he hnow => ?_⟩
  have hsub := Instant.sub_eq_position he hnow
  refine ⟨hsub, ?_, fun e' he' hle => daysUntil_mono ?_, fun now' hnow' hle => daysUntil_mono ?_⟩
  · rw [Instant.lt_iff_position he hnow, hsub]
    exact ⟨Int.sub_neg_of_lt, Int.lt_of_sub_neg⟩
  · rw [hsub, Instant.sub_eq_position he' hnow]
    exact Int.sub_le_sub_right ((Instant.le_iff_position he he').mp hle) _
  · rw [hsub, Instant.sub_eq_position he hnow']
    exact Int.sub_le_sub_left ((Instant.le_iff_position hnow hnow').mp hle) _

/-- Noon on 1 March 2024. -/
def sampleNoon : Instant := { seconds := 1709294400 }

/-- Half a second before. -/
def sampleBeforeNoon : Instant := { seconds := 1709294399, nanos := 500000000 }

/-- Half a second after an expiry there are still zero days left, and no more at any time later. -/
theorem daysUntil_rounds_beforeNoon : sampleBeforeNoon.IsOrdinary ∧ sampleNoon.IsOrdinary ∧
    sampleBeforeNoon < sampleNoon ∧ daysUntil sampleBeforeNoon sampleNoon = 0 ∧
    ∀ now', now'.IsOrdinary → sampleNoon ≤ now' → daysUntil sampleBeforeNoon now' ≤ 0 := by
  obtain ⟨-, hneg, hordinary⟩ := daysUntil_rounds sampleBeforeNoon sampleNoon
  obtain ⟨-, hlt, -, hlater⟩ := hordinary (by decide) (by decide)
  have hzero : daysUntil sampleBeforeNoon sampleNoon = 0 := by decide
  exact ⟨by decide, by decide, hlt.mpr (by decide), hzero, hzero ▸ hlater⟩

/-- The days to an expiry are not the floor of the exact quotient, and not negative for all that has
passed. -/
theorem daysUntil_not_floor : ¬ ∀ e now : Instant, e.IsOrdinary → now.IsOrdinary →
    daysUntil e now = (e.position - now.position) / dayNanos ∧
      (daysUntil e now < 0 ↔ e < now) := by
  intro hfloor
  have hpassed := (hfloor sampleBeforeNoon sampleNoon (by decide) (by decide)).2.mpr (by decide)
  exact absurd hpassed (by decide)

end

end CertSteward
