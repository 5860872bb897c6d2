import CertSteward.Proofs.Time.Calendar
import CertSteward.Time.Rfc3339
import Mathlib.Algebra.Group.Nat.Defs

/-!
# A time that is written is read back

Each reader of a part of a time takes exactly what the writer of that part wrote, whatever follows,
as long as it is no digit. A leap second is written as second 60 and read back as the last second
of its minute with more than `10 ^ 9` nanoseconds.

## Main definitions

* `Instant.IsReading` — the instants that a clock can show

## Main results

* `Instant.number?_padNat`, `Instant.year?_yearText`, `Instant.fraction?_fractionText` — the parts
* `Instant.IsReading.ofRfc3339?_toRfc3339` — a written time is read back
-/

namespace CertSteward

/-! ### Numbers -/

namespace Chars

theorem natOfDigits_eq_ofDigitChars (s : List Char) : natOfDigits s = Nat.ofDigitChars 10 s 0 := rfl

theorem natOfDigits_replicate_append (k : Nat) (s : List Char) :
    natOfDigits (List.replicate k '0' ++ s) = natOfDigits s := by
  induction k with
  | zero => rfl
  | succ k ih =>
    rw [List.replicate_succ, List.cons_append, ← ih]
    rfl

/-- Filling up with zeros keeps the number. -/
theorem natOfDigits_padNat (width n : Nat) : natOfDigits (padNat width n) = n := by
  rw [padNat, natOfDigits_replicate_append, natOfDigits_eq_ofDigitChars, Nat.ofDigitChars_ten_toDigits]

theorem isDigit_of_mem_padNat {width n : Nat} {c : Char} (h : c ∈ padNat width n) :
    c.isDigit = true := by
  simp only [padNat, List.mem_append] at h
  rcases h with h | h
  · rw [List.eq_of_mem_replicate h]; rfl
  · exact Nat.isDigit_of_mem_toDigits (by decide) (by decide) h

theorem padNat_ne_nil (width n : Nat) : padNat width n ≠ [] := by
  simp [padNat, Nat.toDigits_ne_nil]

theorem length_padNat {width n : Nat} (hwidth : 0 < width) (h : n < 10 ^ width) :
    (padNat width n).length = width := by
  have := (Nat.length_toDigits_le_iff (by decide) hwidth).mpr h
  simp only [padNat, List.length_append, List.length_replicate]
  omega

/-- A digit is no blank. -/
theorem isBlank_of_isDigit {c : Char} (h : c.isDigit = true) : isBlank c = false := by
  simp only [Char.isDigit, Bool.and_eq_true, decide_eq_true_eq, UInt32.le_iff_toNat_le] at h
  have h48 : 48 ≤ c.toNat := h.1
  have h57 : c.toNat ≤ 57 := h.2
  simp only [isBlank, Bool.or_eq_false_iff, Bool.and_eq_false_iff, decide_eq_false_iff_not,
    beq_eq_false_iff_ne]
  omega

theorem trimStart_cons {c : Char} (h : isBlank c = false) (s : List Char) :
    trimStart (c :: s) = c :: s := by
  simp [trimStart, h]

/-- Digits have nothing to trim. -/
theorem trimStart_padNat (width n : Nat) (s : List Char) :
    trimStart (padNat width n ++ s) = padNat width n ++ s := by
  obtain ⟨c, t, hcons⟩ := List.exists_cons_of_ne_nil (padNat_ne_nil width n)
  have hc : isBlank c = false :=
    isBlank_of_isDigit (isDigit_of_mem_padNat (hcons ▸ List.mem_cons_self))
  rw [hcons, List.cons_append, trimStart_cons hc]

end Chars

namespace Instant

open Chars

/-- That a text does not go on with a digit. -/
def EndsNumber (s : List Char) : Prop := ∀ c ∈ s.head?, c.isDigit = false

theorem EndsNumber.takeWhile_take {s : List Char} (h : EndsNumber s) (k : Nat) :
    (s.take k).takeWhile Char.isDigit = [] := by
  cases k with
  | zero => rfl
  | succ k =>
    cases s with
    | nil => rfl
    | cons c s => rw [List.take_succ_cons, List.takeWhile_cons_of_neg (by simp [h c rfl])]

/-- A run of digits is read up to its end. -/
theorem number?_append {width : Nat} {ds s : List Char} (hne : ds ≠ [])
    (hds : ∀ c ∈ ds, c.isDigit = true) (hwidth : ds.length ≤ width) (hs : EndsNumber s) :
    number? width (ds ++ s) = some (natOfDigits ds, s) := by
  have htake : ((ds ++ s).take width).takeWhile Char.isDigit = ds := by
    rw [List.take_append, List.take_of_length_le hwidth, List.takeWhile_append_of_pos hds,
      hs.takeWhile_take, List.append_nil]
  simp only [number?, htake, if_neg hne, List.drop_left]

theorem number?_padNat {width k n : Nat} {s : List Char} (hwidth : (padNat k n).length ≤ width)
    (hs : EndsNumber s) : number? width (padNat k n ++ s) = some (n, s) := by
  rw [number?_append (padNat_ne_nil k n) (fun c hc => isDigit_of_mem_padNat hc) hwidth hs,
    natOfDigits_padNat]

/-- A field of two digits is read back. -/
theorem field?_padNat {max n : Nat} {s : List Char} (h : n ≤ max) (hmax : max < 100)
    (hs : EndsNumber s) : field? max (padNat 2 n ++ s) = some (n, s) := by
  have hlength : (padNat 2 n).length = 2 := length_padNat (by decide) (by omega)
  simp only [field?, trimStart_padNat, number?_padNat (Nat.le_of_eq hlength) hs, if_pos h]

theorem literal?_cons {c : Char} (h : isBlank c = false) (s : List Char) :
    literal? c (c :: s) = some s := by
  simp only [literal?, trimStart_cons h, if_pos]

/-! ### Years -/

/-- A year of four digits is read back. -/
theorem year?_padNat {n : Nat} {s : List Char} (h : n ≤ 9999) (hs : EndsNumber s) :
    year? (padNat 4 n ++ s) = some ((n : Int), s) := by
  have hlength : (padNat 4 n).length = 4 := length_padNat (by decide) (by omega)
  obtain ⟨c, t, hcons⟩ := List.exists_cons_of_ne_nil (padNat_ne_nil 4 n)
  have hc : c.isDigit = true := isDigit_of_mem_padNat (hcons ▸ List.mem_cons_self)
  have hread := number?_padNat (Nat.le_of_eq hlength) hs
  unfold year?
  rw [trimStart_padNat]
  rw [hcons, List.cons_append] at hread ⊢
  split
  · next heq =>
    obtain rfl := (List.cons.inj heq).1
    exact absurd hc (by decide)
  · next heq =>
    obtain rfl := (List.cons.inj heq).1
    exact absurd hc (by decide)
  · rw [hread]
    rfl

/-- A year is read back. -/
theorem year?_yearText (y : Int) {s : List Char} (hs : EndsNumber s) :
    year? (yearText y ++ s) = some (y, s) := by
  have hread : ∀ n, number? (padNat 4 n ++ s).length (padNat 4 n ++ s) = some (n, s) := fun n =>
    number?_padNat (by rw [List.length_append]; omega) hs
  unfold yearText
  split
  · next h =>
    rw [year?_padNat (by omega) hs]
    congr
    omega
  · split
    · next h =>
      rw [year?, List.cons_append, trimStart_cons rfl]
      simp only [hread, Option.map_some, Option.some.injEq, Prod.mk.injEq, and_true]
      omega
    · next h =>
      rw [year?, List.cons_append, trimStart_cons rfl]
      simp only [hread, Option.map_some, Option.some.injEq, Prod.mk.injEq, and_true]
      omega

/-! ### Fractions -/

/-- Digits behind a point are read with their weight. -/
theorem fraction?_padNat {k n : Nat} {s : List Char} (hk : 0 < k) (h9 : k ≤ 9) (h : n < 10 ^ k)
    (hs : EndsNumber s) :
    fraction? ('.' :: (padNat k n ++ s)) = some (n * 10 ^ (9 - k), s) := by
  have hlength := length_padNat hk h
  have hrest : s.dropWhile Char.isDigit = s := by
    cases s with
    | nil => rfl
    | cons c s => rw [List.dropWhile_cons_of_neg (by simp [hs c rfl])]
  simp only [fraction?, number?_padNat (show (padNat k n).length ≤ 9 by omega) hs,
    List.length_append, hlength, Nat.add_sub_cancel_right, hrest]
  rfl

/-- A fraction is read back. -/
theorem fraction?_fractionText {nanos : Nat} (h : nanos < 1000000000) {s : List Char}
    (hs : EndsNumber s) (hpoint : s.head? ≠ some '.') :
    fraction? (fractionText nanos ++ s) = some (nanos, s) := by
  unfold fractionText
  split
  · next hzero =>
    subst hzero
    rw [List.nil_append, fraction?]
    rintro t rfl
    exact hpoint rfl
  split
  · next hmillis =>
    rw [List.cons_append, fraction?_padNat (by decide) (by decide) (by omega) hs]
    simp only [Option.some.injEq, Prod.mk.injEq, and_true]
    omega
  split
  · next hmicros =>
    rw [List.cons_append, fraction?_padNat (by decide) (by decide) (by omega) hs]
    simp only [Option.some.injEq, Prod.mk.injEq, and_true]
    omega
  · rw [List.cons_append, fraction?_padNat (by decide) (by decide) (by omega) hs]
    simp

/-- A fraction, if there is any, begins with a point. -/
theorem endsNumber_fractionText (nanos : Nat) {s : List Char} (hs : EndsNumber s) :
    EndsNumber (fractionText nanos ++ s) := by
  have hpoint : ∀ t : List Char, EndsNumber ('.' :: t) := by
    rintro t c ⟨⟩
    rfl
  unfold fractionText
  split
  · exact hs
  split
  · exact hpoint _
  split
  · exact hpoint _
  · exact hpoint _

/-! ### Times -/

/-- An instant that a clock can show: the calendar reaches it, and a leap second is the last second
of its minute. -/
structure IsReading (a : Instant) : Prop where
  inCalendar : a.InCalendar
  nanos_lt : a.nanos < 2000000000
  leap : 1000000000 ≤ a.nanos → a.seconds % 60 = 59

theorem secondOfDay_bounds (a : Instant) : 0 ≤ a.secondOfDay ∧ a.secondOfDay < 86400 := by
  simp only [secondOfDay, daySeconds]
  omega

/-- The day is one of its month. -/
theorem day_le (a : Instant) : (Civil.ofDays (a.seconds / daySeconds)).day ≤ 31 := by
  obtain ⟨-, -, -, hdate⟩ := Civil.isValid_ofDays (a.seconds / daySeconds)
  refine Nat.le_trans hdate ?_
  unfold Civil.monthLength
  split
  · split <;> decide
  · split <;> decide

namespace IsReading

variable {a : Instant}

/-- A leap second is the last of its minute. -/
theorem second_le (h : a.IsReading) : a.secondOfDay.toNat % 60 + a.nanos / 1000000000 ≤ 60 := by
  obtain ⟨-, hnanos, hleap⟩ := h
  have hday := a.secondOfDay_bounds
  simp only [secondOfDay, daySeconds] at hday ⊢
  omega

/-- Second 60 is written for a leap second, and only for one. -/
theorem leap_eq (h : a.IsReading) :
    (if a.secondOfDay.toNat % 60 + a.nanos / 1000000000 = 60 then 1 else 0) =
      a.nanos / 1000000000 := by
  obtain ⟨-, hnanos, hleap⟩ := h
  have hiff : a.secondOfDay.toNat % 60 + a.nanos / 1000000000 = 60 ↔
      a.nanos / 1000000000 = 1 := by
    have hday := a.secondOfDay_bounds
    simp only [secondOfDay, daySeconds] at hday ⊢
    omega
  by_cases h : a.nanos / 1000000000 = 1
  · rw [if_pos (hiff.mpr h), h]
  · rw [if_neg (mt hiff.mp h)]
    omega

/-- Days, hours, minutes and seconds make up the time. -/
theorem seconds_eq (a : Instant) :
    a.seconds / daySeconds * daySeconds + ((a.secondOfDay.toNat / 3600 * 3600 +
      a.secondOfDay.toNat / 60 % 60 * 60 + (a.secondOfDay.toNat % 60 + a.nanos / 1000000000 -
        a.nanos / 1000000000) : Nat) : Int) = a.seconds := by
  have hday := a.secondOfDay_bounds
  simp only [secondOfDay, daySeconds] at hday ⊢
  omega

/-- What is read is the written time. -/
theorem assemble (h : a.IsReading) :
    (let leap := if a.secondOfDay.toNat % 60 + a.nanos / 1000000000 = 60 then 1 else 0
     let local' := Civil.toDays ⟨(Civil.ofDays (a.seconds / daySeconds)).year,
        (Civil.ofDays (a.seconds / daySeconds)).month,
        (Civil.ofDays (a.seconds / daySeconds)).day⟩ * daySeconds +
          (a.secondOfDay.toNat / 3600 * 3600 + a.secondOfDay.toNat / 60 % 60 * 60 +
            (a.secondOfDay.toNat % 60 + a.nanos / 1000000000 - leap) : Nat)
     let b : Instant := { seconds := local' - 0
                          nanos := a.nanos % 1000000000 + leap * 1000000000 }
     (if local' < minSeconds ∨ maxSeconds < local' ∨ ¬ b.InCalendar then none else pure b :
       Option Instant)) = some a := by
  have hdays : Civil.toDays ⟨(Civil.ofDays (a.seconds / daySeconds)).year,
      (Civil.ofDays (a.seconds / daySeconds)).month, (Civil.ofDays (a.seconds / daySeconds)).day⟩ =
        a.seconds / daySeconds := Civil.toDays_ofDays _
  obtain ⟨hmin, hmax⟩ := h.inCalendar
  simp only [h.leap_eq, hdays, seconds_eq, Int.sub_zero, Nat.mod_add_div']
  rw [if_neg (by simp [InCalendar]; omega)]
  rfl

/-- A written time is read back. -/
theorem ofRfc3339?_toRfc3339 (h : a.IsReading) : ofRfc3339? a.toRfc3339 = some a := by
  have hends : ∀ {c : Char} {s : List Char}, c.isDigit = false → EndsNumber (c :: s) := by
    rintro c s hc d ⟨⟩
    exact hc
  obtain ⟨-, hmonth, -, -⟩ := Civil.isValid_ofDays (a.seconds / daySeconds)
  have hday := a.secondOfDay_bounds
  have htext : a.toRfc3339.toList = yearText (Civil.ofDays (a.seconds / daySeconds)).year ++
      '-' :: (Chars.padNat 2 (Civil.ofDays (a.seconds / daySeconds)).month ++
      '-' :: (Chars.padNat 2 (Civil.ofDays (a.seconds / daySeconds)).day ++
      'T' :: (Chars.padNat 2 (a.secondOfDay.toNat / 3600) ++
      ':' :: (Chars.padNat 2 (a.secondOfDay.toNat / 60 % 60) ++
      ':' :: (Chars.padNat 2 (a.secondOfDay.toNat % 60 + a.nanos / 1000000000) ++
      (fractionText (a.nanos % 1000000000) ++ ['Z'])))))) := by
    simp only [toRfc3339, dateText, timeText, String.toList_ofList, List.append_assoc,
      List.cons_append]
  rw [ofRfc3339?, htext]
  -- the parts of the text one after the other
  refine Option.bind_eq_some_iff.mpr ⟨_, year?_yearText _ (hends rfl), ?_⟩
  refine Option.bind_eq_some_iff.mpr ⟨_, literal?_cons rfl _, ?_⟩
  refine Option.bind_eq_some_iff.mpr ⟨_, field?_padNat hmonth (by decide) (hends rfl), ?_⟩
  refine Option.bind_eq_some_iff.mpr ⟨_, literal?_cons rfl _, ?_⟩
  refine Option.bind_eq_some_iff.mpr ⟨_, field?_padNat a.day_le (by decide) (hends rfl), ?_⟩
  refine Option.bind_eq_some_iff.mpr ⟨_, field?_padNat (by omega) (by decide) (hends rfl), ?_⟩
  refine Option.bind_eq_some_iff.mpr ⟨_, literal?_cons rfl _, ?_⟩
  refine Option.bind_eq_some_iff.mpr ⟨_, field?_padNat (by omega) (by decide) (hends rfl), ?_⟩
  refine Option.bind_eq_some_iff.mpr ⟨_, literal?_cons rfl _, ?_⟩
  refine Option.bind_eq_some_iff.mpr ⟨_, field?_padNat h.second_le (by decide)
    (endsNumber_fractionText _ (hends rfl)), ?_⟩
  refine Option.bind_eq_some_iff.mpr ⟨_, fraction?_fractionText (Nat.mod_lt _ (by decide))
    (hends rfl) (by simp), ?_⟩
  refine Option.bind_eq_some_iff.mpr ⟨(0, []), rfl, ?_⟩
  have hvalid : ¬ (¬ (Civil.ofDays (a.seconds / daySeconds)).IsValid ∨ (0 : Int).natAbs ≥ 86400) :=
    fun h => h.elim (fun h => h (Civil.isValid_ofDays _)) (by decide)
  refine (if_neg (show ¬ Chars.trimStart [] ≠ [] from fun h => h rfl)).trans ?_
  exact (if_neg hvalid).trans h.assemble

end IsReading

end Instant

end CertSteward
