import CertSteward.Time.Instant

/-!
# The order of instants

Instants are ordered by seconds first and nanoseconds second. The order is total, readings inside
a leap second included.

## Main results

* `Instant.not_lt`, `Instant.not_le` — the order is total
* `Instant.le_max_left` — the later of two instants is no earlier than either
-/

namespace CertSteward

namespace Instant

variable {a b c : Instant}

theorem le_def : a ≤ b ↔ a.seconds < b.seconds ∨ (a.seconds = b.seconds ∧ a.nanos ≤ b.nanos) :=
  Iff.rfl

theorem lt_def : a < b ↔ a.seconds < b.seconds ∨ (a.seconds = b.seconds ∧ a.nanos < b.nanos) :=
  Iff.rfl

@[simp] theorem le_refl (a : Instant) : a ≤ a := by
  rw [le_def]
  omega

theorem le_trans (hab : a ≤ b) (hbc : b ≤ c) : a ≤ c := by
  rw [le_def] at *
  omega

theorem le_antisymm (hab : a ≤ b) (hba : b ≤ a) : a = b := by
  rw [le_def] at hab hba
  cases a
  cases b
  simp only [Instant.mk.injEq] at *
  omega

theorem le_of_lt (h : a < b) : a ≤ b := by
  rw [le_def]
  rw [lt_def] at h
  omega

theorem not_lt : ¬ a < b ↔ b ≤ a := by
  rw [lt_def, le_def]
  omega

theorem not_le : ¬ a ≤ b ↔ b < a := by
  rw [lt_def, le_def]
  omega

/-- Taking the later of two instants never moves backwards. -/
theorem le_max_left (a b : Instant) : a ≤ a.max b := by
  unfold Instant.max
  split
  · exact le_of_lt ‹_›
  · exact le_refl a

end Instant

end CertSteward
