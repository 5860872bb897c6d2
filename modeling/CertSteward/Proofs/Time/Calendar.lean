import CertSteward.Time.Calendar

/-!
# The calendar counts days both ways

An era of 400 years has four centuries, a century 25 spans of four years, and such a span four
years; with years that begin in March only the last day of the longer ones is irregular. A day of
an era is taken apart along these lines once. That the year of a day, its month and its number are
right is then arithmetic on the parts.

## Main definitions

* `Civil.EraDay` — a day of an era as century, span, year and day of the year

## Main results

* `Civil.toDays_ofDays` — the date of a day has the number of that day
* `Civil.isValid_ofDays` — the date of a day exists
-/

namespace CertSteward

namespace Civil

/-- The day `k` of the year `s` of the span `q` of the century `c` of an era. Only the last year of
a span has a day 365, and not the one at the end of the first three centuries. -/
structure EraDay (c q s k : Int) : Prop where
  century : 0 ≤ c ∧ c ≤ 3
  span : 0 ≤ q ∧ q ≤ 24
  year : 0 ≤ s ∧ s ≤ 3
  day : 0 ≤ k ∧ k ≤ 365
  leap : k = 365 → s = 3 ∧ (q = 24 → c = 3)

theorem exists_eraDay {d : Int} (h0 : 0 ≤ d) (h1 : d < 146097) :
    ∃ c q s k, EraDay c q s k ∧ d = 36524 * c + 1461 * q + 365 * s + k := by
  obtain ⟨c, r, hd, hc0, hc, hr0, hr⟩ : ∃ c r : Int, d = 36524 * c + r ∧ 0 ≤ c ∧ c ≤ 3 ∧ 0 ≤ r ∧
      (r < 36524 ∨ (r = 36524 ∧ c = 3)) := by
    by_cases h : d = 146096
    · exact ⟨3, 36524, by omega⟩
    · exact ⟨d / 36524, d % 36524, by omega⟩
  obtain ⟨q, t, hq, hq0, hq24, ht0, ht⟩ : ∃ q t : Int, r = 1461 * q + t ∧ 0 ≤ q ∧ q ≤ 24 ∧ 0 ≤ t ∧
      t < 1461 := ⟨r / 1461, r % 1461, by omega⟩
  by_cases h : t = 1460
  · exact ⟨c, q, 3, 365, ⟨by omega, by omega, by omega, by omega, by omega⟩, by omega⟩
  · exact ⟨c, q, t / 365, t % 365, ⟨by omega, by omega, by omega, by omega, by omega⟩, by omega⟩

variable {c q s k : Int}

/-- The year of a day of an era. -/
theorem EraDay.yearOfEra (h : EraDay c q s k) {d : Int}
    (hd : d = 36524 * c + 1461 * q + 365 * s + k) :
    (d - d / 1460 + d / 36524 - d / 146096) / 365 = 100 * c + 4 * q + s := by
  obtain ⟨hc, hq, hs, hk, hleap⟩ := h
  by_cases hlast : d = 146096
  · subst hlast; omega
  have hera : d / 146096 = 0 := by omega
  have hcentury : d / 36524 = c := by omega
  rw [hera, hcentury]
  omega

/-- The day of the year of a day of an era. -/
theorem EraDay.dayOfYear (h : EraDay c q s k) :
    36524 * c + 1461 * q + 365 * s + k - (365 * (100 * c + 4 * q + s) +
      (100 * c + 4 * q + s) / 4 - (100 * c + 4 * q + s) / 100) = k := by
  obtain ⟨hc, hq, hs, hk, -⟩ := h
  omega

/-- The month of a day of a year that begins in March. -/
def monthIndex (k : Int) : Int := (5 * k + 2) / 153

/-- The day of the month. -/
def monthDay (k : Int) : Int := k - (153 * monthIndex k + 2) / 5 + 1

/-- Months from March have 31 days, or 30 if they are April, June, September or November; the last
is February. -/
theorem monthIndex_spec (h0 : 0 ≤ k) (h : k ≤ 365) :
    0 ≤ monthIndex k ∧ monthIndex k ≤ 11 ∧ 1 ≤ monthDay k ∧ monthDay k ≤ 31 ∧
      (monthIndex k = 1 ∨ monthIndex k = 3 ∨ monthIndex k = 6 ∨ monthIndex k = 8 →
        monthDay k ≤ 30) ∧
      (monthIndex k = 11 → monthDay k ≤ 29 ∧ (monthDay k = 29 → k = 365)) := by
  simp only [monthDay, monthIndex]
  omega

/-- The date on the day `k` of a year that begins in March. -/
def fromMarch (year k : Int) : Civil :=
  let month := (if monthIndex k < 10 then monthIndex k + 3 else monthIndex k - 9).toNat
  { year := if month ≤ 2 then year + 1 else year, month, day := (monthDay k).toNat }

theorem EraDay.ofDays (h : EraDay c q s k) {era : Int} :
    ofDays (era * 146097 + (36524 * c + 1461 * q + 365 * s + k) - 719468) =
      fromMarch (100 * c + 4 * q + s + era * 400) k := by
  have hday : 0 ≤ 36524 * c + 1461 * q + 365 * s + k ∧
      36524 * c + 1461 * q + 365 * s + k < 146097 := by
    obtain ⟨hc, hq, hs, hk, hleap⟩ := h
    omega
  have hera : (era * 146097 + (36524 * c + 1461 * q + 365 * s + k) - 719468 + 719468) / 146097 =
      era := by omega
  have hrest : (era * 146097 + (36524 * c + 1461 * q + 365 * s + k) - 719468 + 719468) % 146097 =
      36524 * c + 1461 * q + 365 * s + k := by omega
  simp only [Civil.ofDays, hera, hrest, h.yearOfEra rfl, h.dayOfYear]
  rfl

/-- The month of such a date, and the year that it is counted from March in. -/
theorem fromMarch_month (year : Int) (h0 : 0 ≤ k) (h : k ≤ 365) :
    (monthIndex k < 10 ∧ ((fromMarch year k).month : Int) = monthIndex k + 3 ∧
      (fromMarch year k).year = year) ∨
    (10 ≤ monthIndex k ∧ ((fromMarch year k).month : Int) = monthIndex k - 9 ∧
      (fromMarch year k).year = year + 1) := by
  obtain ⟨hm0, hm11, -⟩ := monthIndex_spec h0 h
  simp only [fromMarch]
  by_cases hm : monthIndex k < 10
  · left
    rw [if_pos hm, if_neg (by omega)]
    omega
  · right
    rw [if_neg hm, if_pos (by omega)]
    omega

/-- The date on a day of an era has the number of that day. -/
theorem EraDay.toDays_fromMarch (h : EraDay c q s k) (era : Int) :
    toDays (fromMarch (100 * c + 4 * q + s + era * 400) k) =
      era * 146097 + (36524 * c + 1461 * q + 365 * s + k) - 719468 := by
  obtain ⟨hc, hq, hs, hk, -⟩ := h
  obtain ⟨hm0, hm11, hday, -⟩ := monthIndex_spec hk.1 hk.2
  have hdayNat : ((fromMarch (100 * c + 4 * q + s + era * 400) k).day : Int) =
      k - (153 * monthIndex k + 2) / 5 + 1 := by
    simp only [fromMarch]
    rw [monthDay] at hday ⊢
    omega
  rcases fromMarch_month (100 * c + 4 * q + s + era * 400) hk.1 hk.2 with
    ⟨hm, hmonth, hyear⟩ | ⟨hm, hmonth, hyear⟩
  · have hlate : (fromMarch (100 * c + 4 * q + s + era * 400) k).month > 2 := by omega
    simp only [toDays, hmonth, hyear, hdayNat, if_pos hlate, if_neg (Nat.not_le.mpr hlate)]
    omega
  · have hearly : (fromMarch (100 * c + 4 * q + s + era * 400) k).month ≤ 2 := by omega
    simp only [toDays, hmonth, hyear, hdayNat, if_pos hearly, if_neg (Nat.not_lt.mpr hearly)]
    omega

/-- The year after one that has a day 365 when it begins in March is a leap year. -/
theorem EraDay.isLeap (h : EraDay c q s 365) (era : Int) :
    isLeap (100 * c + 4 * q + s + era * 400 + 1) = true := by
  obtain ⟨hc, hq, hs, -, hleap⟩ := h
  obtain ⟨hs3, hcentury⟩ := hleap rfl
  simp only [Civil.isLeap, Bool.and_eq_true, Bool.or_eq_true, beq_iff_eq, bne_iff_ne]
  omega

/-- The date on a day of an era exists. -/
theorem EraDay.isValid_fromMarch (h : EraDay c q s k) (era : Int) :
    (fromMarch (100 * c + 4 * q + s + era * 400) k).IsValid := by
  obtain ⟨hm0, hm11, hday, hday31, hday30, hfebruary⟩ := monthIndex_spec h.day.1 h.day.2
  have hdayNat : ((fromMarch (100 * c + 4 * q + s + era * 400) k).day : Int) = monthDay k := by
    simp only [fromMarch]
    omega
  rcases fromMarch_month (100 * c + 4 * q + s + era * 400) h.day.1 h.day.2 with
    ⟨hm, hmonth, hyear⟩ | ⟨hm, hmonth, hyear⟩
  · refine ⟨by omega, by omega, by omega, ?_⟩
    rw [monthLength, if_neg (by omega)]
    split <;> omega
  · refine ⟨by omega, by omega, by omega, ?_⟩
    rw [monthLength, hyear]
    by_cases h365 : k = 365
    · subst h365
      rw [h.isLeap]
      simp only [if_true]
      split
      · omega
      · rw [if_neg (by omega)]; omega
    · split
      · split <;> omega
      · rw [if_neg (by omega)]; omega

/-- Every day is a day of some era. -/
theorem exists_era (days : Int) : ∃ era c q s k, EraDay c q s k ∧
    days = era * 146097 + (36524 * c + 1461 * q + 365 * s + k) - 719468 := by
  obtain ⟨c, q, s, k, h, hd⟩ := exists_eraDay (d := (days + 719468) % 146097) (by omega) (by omega)
  exact ⟨(days + 719468) / 146097, c, q, s, k, h, by omega⟩

/-- The date of a day has the number of that day. -/
theorem toDays_ofDays (days : Int) : (ofDays days).toDays = days := by
  obtain ⟨era, c, q, s, k, h, rfl⟩ := exists_era days
  rw [h.ofDays, h.toDays_fromMarch]

/-- The date of a day exists. -/
theorem isValid_ofDays (days : Int) : (ofDays days).IsValid := by
  obtain ⟨era, c, q, s, k, h, rfl⟩ := exists_era days
  rw [h.ofDays]
  exact h.isValid_fromMarch era

end Civil

end CertSteward
