import CertSteward.Text.Chars
import Mathlib

/-!
# What cuts and folds of texts leave

Cutting characters off the ends of a text leaves the one middle part that has none of them at its
ends; the lemmas here say so without the functions that cut, so that a statement about a text that
was cut can be read on its own.

## Main results

* `Chars.dropWhile_eq_iff`, `dropEndWhile_eq_iff` — what is left at one end
* `Chars.trim_eq_iff` — what is left in the middle
* `Chars.splitOn_eq_iff`, `mem_intercalate` — the pieces of a text are those that make it up
* `Chars.splitOn_suffix_iff` — what the last pieces of a text make up
* `Chars.lower_lower`, `not_isUpper_of_mem_lower` — texts in lower case
-/

namespace CertSteward

namespace Chars

variable {p : Char → Bool} {s t : List Char}

/-! ### Ends -/

/-- What is left when characters are dropped at the start. -/
theorem dropWhile_eq_iff : s.dropWhile p = t ↔
    ∃ before, s = before ++ t ∧ (∀ c ∈ before, p c = true) ∧ ∀ c ∈ t.head?, p c = false := by
  constructor
  · rintro rfl
    refine ⟨s.takeWhile p, List.takeWhile_append_dropWhile.symm, fun c hc => ?_, fun c hc => ?_⟩
    · exact List.all_eq_true.mp List.all_takeWhile c hc
    · have hnot := List.head?_dropWhile_not p s
      rwa [Option.mem_def.mp hc] at hnot
  · rintro ⟨before, rfl, hbefore, hhead⟩
    rw [List.dropWhile_append_of_pos hbefore]
    cases t with
    | nil => rfl
    | cons c t => exact List.dropWhile_cons_of_neg (by simp [hhead c rfl])

/-- What is left when characters are dropped at the end. -/
theorem dropEndWhile_eq_iff : dropEndWhile p s = t ↔
    ∃ after, s = t ++ after ∧ (∀ c ∈ after, p c = true) ∧ ∀ c ∈ t.getLast?, p c = false := by
  rw [dropEndWhile, List.reverse_eq_iff, dropWhile_eq_iff]
  constructor
  · rintro ⟨before, hs, hbefore, hhead⟩
    refine ⟨before.reverse, ?_, fun c hc => hbefore c (List.mem_reverse.mp hc), fun c hc => ?_⟩
    · rw [← List.reverse_inj, hs, List.reverse_append, List.reverse_reverse]
    · exact hhead c (by rwa [List.head?_reverse])
  · rintro ⟨after, rfl, hafter, hlast⟩
    refine ⟨after.reverse, List.reverse_append, fun c hc => hafter c (List.mem_reverse.mp hc),
      fun c hc => hlast c ?_⟩
    rwa [List.head?_reverse] at hc

/-- A text that neither begins nor ends with a blank. -/
structure IsTrimmed (s : List Char) : Prop where
  head : ∀ c ∈ s.head?, isBlank c = false
  last : ∀ c ∈ s.getLast?, isBlank c = false

/-- What is left when blanks are removed at both ends. -/
theorem trim_eq_iff : trim s = t ↔ ∃ before after, s = before ++ t ++ after ∧
    (∀ c ∈ before, isBlank c = true) ∧ (∀ c ∈ after, isBlank c = true) ∧ IsTrimmed t := by
  have htrim : trim s = t ↔ ∃ after, trimStart s = t ++ after ∧
      (∀ c ∈ after, isBlank c = true) ∧ ∀ c ∈ t.getLast?, isBlank c = false :=
    dropEndWhile_eq_iff
  rw [htrim]
  constructor
  · rintro ⟨after, hstart, hafter, hlast⟩
    obtain ⟨before, hs, hbefore, hhead⟩ := dropWhile_eq_iff.mp hstart
    refine ⟨before, after, by rw [hs, List.append_assoc], hbefore, hafter, fun c hc => ?_, hlast⟩
    cases t with
    | nil => cases hc
    | cons d t => exact hhead c hc
  · rintro ⟨before, after, hs, hbefore, hafter, hhead, hlast⟩
    cases t with
    | cons d t =>
      exact ⟨after, dropWhile_eq_iff.mpr ⟨before, by rw [hs, List.append_assoc], hbefore, hhead⟩,
        hafter, hlast⟩
    | nil =>
      -- nothing but blanks
      rw [List.append_nil] at hs
      refine ⟨[], dropWhile_eq_iff.mpr ⟨before ++ after, by rw [hs]; simp, fun c hc => ?_, nofun⟩,
        nofun, nofun⟩
      exact (List.mem_append.mp hc).elim (hbefore c) (hafter c)

/-- Nothing is removed where there are no blanks at the ends. -/
theorem IsTrimmed.trim_eq (h : IsTrimmed s) : trim s = s :=
  trim_eq_iff.mpr ⟨[], [], by simp, nofun, nofun, h⟩

/-- What follows a prefix. -/
theorem stripStart?_eq_some_iff {before rest : List Char} :
    stripStart? before s = some rest ↔ s = before ++ rest := by
  induction before generalizing s with
  | nil => simp [stripStart?]
  | cons a before ih =>
    cases s with
    | nil => simp [stripStart?]
    | cons b s =>
      rw [stripStart?, List.cons_append, List.cons.injEq]
      split
      · rename_i hab
        simp [ih, hab]
      · rename_i hab
        simp [Ne.symm hab]

/-! ### Pieces -/

/-- Cutting at a character is what the list library does. -/
theorem splitOn_eq (sep : Char) (s : List Char) : splitOn sep s = s.splitOn sep := by
  induction s with
  | nil => rfl
  | cons c s ih =>
    rw [splitOn, ih, List.splitOn_cons_eq_if_modifyHead]
    simp only [beq_iff_eq]
    cases hs : s.splitOn sep with
    | nil => exact absurd hs (List.splitOn_ne_nil sep s)
    | cons piece rest => rfl

/-- The pieces between separators have none of them. -/
theorem not_mem_of_mem_splitOn {sep : Char} {piece : List Char} (h : piece ∈ splitOn sep s) :
    sep ∉ piece := by
  induction s generalizing piece with
  | nil =>
    rw [splitOn, List.mem_singleton] at h
    subst h
    exact List.not_mem_nil
  | cons c s ih =>
    rw [splitOn] at h
    split at h
    · obtain rfl | h := List.mem_cons.mp h
      · exact List.not_mem_nil
      · exact ih h
    · rename_i hc
      have hne : sep ≠ c := Ne.symm hc
      cases hs : splitOn sep s with
      | nil =>
        rw [hs] at h
        obtain rfl := List.mem_singleton.mp h
        simpa using hne
      | cons first rest =>
        rw [hs] at ih h
        obtain rfl | h := List.mem_cons.mp h
        · simpa [hne] using ih List.mem_cons_self
        · exact ih (List.mem_cons_of_mem _ h)

/-- The pieces of a text are those that make it up and are not cut themselves. -/
theorem splitOn_eq_iff {sep : Char} {pieces : List (List Char)} : splitOn sep s = pieces ↔
    [sep].intercalate pieces = s ∧ pieces ≠ [] ∧ ∀ piece ∈ pieces, sep ∉ piece := by
  constructor
  · rintro rfl
    refine ⟨?_, ?_, fun piece => not_mem_of_mem_splitOn⟩
    · rw [splitOn_eq, List.intercalate_splitOn]
    · rw [splitOn_eq]
      exact List.splitOn_ne_nil sep s
  · rintro ⟨rfl, hne, hpieces⟩
    rw [splitOn_eq]
    exact List.splitOn_intercalate sep hpieces hne

/-- A text is known from its pieces. -/
theorem splitOn_injective (sep : Char) : Function.Injective (splitOn sep) := fun s t h => by
  rw [← (splitOn_eq_iff.mp h).1, (splitOn_eq_iff.mp (rfl : splitOn sep t = _)).1]

/-- The pieces before a separator come before those after it. -/
theorem splitOn_append (sep : Char) (s t : List Char) :
    splitOn sep (s ++ sep :: t) = splitOn sep s ++ splitOn sep t := by
  simp only [splitOn_eq, List.splitOn_eq_splitOnP]
  exact List.splitOnP_append_cons s t (beq_self_eq_true sep)

/-- The last pieces of a text make up a text that is the whole or stands behind a separator. -/
theorem splitOn_suffix_iff {sep : Char} :
    splitOn sep t <:+ splitOn sep s ↔ t = s ∨ sep :: t <:+ s := by
  constructor
  · rintro ⟨pieces, hs⟩
    cases hpieces : pieces with
    | nil =>
      rw [hpieces, List.nil_append] at hs
      exact .inl (splitOn_injective sep hs)
    | cons piece rest =>
      -- the first pieces are those of what stands before the separator
      have hfront : splitOn sep ([sep].intercalate pieces) = pieces := by
        refine splitOn_eq_iff.mpr ⟨rfl, by simp [hpieces], fun p hp => ?_⟩
        exact not_mem_of_mem_splitOn (hs ▸ List.mem_append_left _ hp)
      refine .inr ⟨[sep].intercalate pieces, splitOn_injective sep ?_⟩
      rw [splitOn_append, hfront, hs]
  · rintro (rfl | ⟨front, rfl⟩)
    · exact List.suffix_refl _
    · rw [splitOn_append]
      exact List.suffix_append _ _

/-- The parts around a text and that text make up the whole. -/
theorem eq_of_splitAtText {sep a b : List Char} (h : splitAtText sep s = some (a, b)) :
    s = a ++ sep ++ b := by
  induction s generalizing a with
  | nil =>
    rw [splitAtText] at h
    split at h
    · rename_i rest hrest
      cases h
      exact stripStart?_eq_some_iff.mp hrest
    · cases h
  | cons c s ih =>
    rw [splitAtText] at h
    split at h
    · rename_i rest hrest
      cases h
      exact stripStart?_eq_some_iff.mp hrest
    · obtain ⟨⟨a', b'⟩, hs, heq⟩ := Option.map_eq_some_iff.mp h
      cases heq
      rw [ih hs]
      rfl

/-- The characters of pieces joined by a separator. -/
theorem mem_intercalate {sep c : Char} {pieces : List (List Char)} :
    c ∈ [sep].intercalate pieces ↔ (∃ piece ∈ pieces, c ∈ piece) ∨ c = sep ∧ 2 ≤ pieces.length := by
  induction pieces with
  | nil => simp [List.intercalate_nil]
  | cons piece pieces ih =>
    cases pieces with
    | nil => simp
    | cons next rest =>
      rw [List.intercalate_cons_cons]
      simp only [List.mem_append, ih, List.mem_singleton, List.length_cons,
        List.exists_mem_cons_iff]
      constructor
      · rintro ((hpiece | rfl) | hrest | ⟨rfl, -⟩)
        · exact .inl (.inl hpiece)
        · exact .inr ⟨rfl, by omega⟩
        · exact .inl (.inr hrest)
        · exact .inr ⟨rfl, by omega⟩
      · rintro ((hpiece | hrest) | ⟨rfl, -⟩)
        · exact .inl (.inl hpiece)
        · exact .inr (.inl hrest)
        · exact .inl (.inr rfl)

/-! ### Case

No smaller import than the whole library has the facts about the case of one letter. -/

theorem sameIgnoringCase_iff : sameIgnoringCase s t = true ↔ lower s = lower t := beq_iff_eq

@[simp] theorem lower_lower (s : List Char) : lower (lower s) = lower s := by
  simp [lower]

/-- There are no capitals in a text in lower case. -/
theorem not_isUpper_of_mem_lower {c : Char} (h : c ∈ lower s) : c.isUpper = false := by
  obtain ⟨d, -, rfl⟩ := List.mem_map.mp h
  exact Char.isUpper_toLower_eq_false d

/-- Only a character itself becomes one that is no letter. -/
theorem toLower_eq_iff {c d : Char} (h : c.isAlpha = false) : d.toLower = c ↔ d = c := by
  constructor
  · rintro rfl
    rw [Char.isAlpha_toLower_eq_isAlpha, Char.isAlpha, Bool.or_eq_false_iff] at h
    exact (Char.toLower_eq_of_not_isUpper (by simp [h.1])).symm
  · rintro rfl
    rw [Char.isAlpha, Bool.or_eq_false_iff] at h
    exact Char.toLower_eq_of_not_isUpper (by simp [h.1])

/-- A text is cut at the same places in every case, if it is not cut at letters. -/
theorem map_lower_splitOn {sep : Char} (h : sep.isAlpha = false) (s : List Char) :
    (splitOn sep s).map lower = splitOn sep (lower s) := by
  induction s with
  | nil => rfl
  | cons c s ih =>
    rw [lower, List.map_cons, splitOn, splitOn, ← lower, ← ih]
    simp only [toLower_eq_iff h]
    split
    · rfl
    · cases splitOn sep s with
      | nil => rfl
      | cons piece rest => rfl

end Chars

end CertSteward
