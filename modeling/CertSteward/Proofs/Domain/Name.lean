import CertSteward.Domain.Name
import CertSteward.Proofs.Text.Chars

/-!
# Which texts are domain names

The names that are accepted are those of a grammar: two or more labels with dots between them, with
one `*` before them where wildcards are allowed. A text is accepted if what is left of it without
the blanks around it and the dots at its end is such a name in some case, and it is then normalized
to that name in lower case.

The length of a name is counted in bytes. As all characters of an accepted name take one byte, this
makes no difference for its labels.

## Main definitions

* `Domain.IsLabel`, `Domain.IsName` — the grammar
* `Domain.Folds` — a name with blanks around it, dots at its end and capitals

## Main results

* `Domain.fold_eq_iff` — what folding leaves
* `Domain.labelFault?_eq_none_iff` — the labels without a fault
* `Domain.normalize_eq_ok_iff` — the texts that are accepted, and what they are normalized to
* `Domain.normalize_idem` — a normalized name is its own normal form
-/

namespace CertSteward

namespace Domain

variable {allowWildcard : Bool} {c : Char} {label name : List Char} {labels : List (List Char)}

/-! ### The grammar -/

/-- A label: 1 to 63 small letters, digits, hyphens and underscores, no hyphen at either end. -/
structure IsLabel (label : List Char) : Prop where
  length_pos : 1 ≤ label.length
  length_le : label.length ≤ 63
  chars : ∀ c ∈ label, c.isLower = true ∨ c.isDigit = true ∨ c = '-' ∨ c = '_'
  head : label.head? ≠ some '-'
  last : label.getLast? ≠ some '-'

/-- A domain name: two or more labels with dots between them, and possibly a star before them. -/
def IsName (allowWildcard : Bool) (name : List Char) : Prop :=
  ∃ labels : List (List Char), 2 ≤ labels.length ∧ (∀ label ∈ labels, IsLabel label) ∧
    (name = ['.'].intercalate labels ∨
      allowWildcard = true ∧ name = '*' :: '.' :: ['.'].intercalate labels)

/-- The text `d` has blanks around it, and before those at its end dots; without them and in lower
case it is `n`. -/
def Folds (d n : List Char) : Prop :=
  ∃ before core dots after, d = before ++ (core ++ dots) ++ after ∧
    (∀ c ∈ before, Chars.isBlank c = true) ∧ (∀ c ∈ after, Chars.isBlank c = true) ∧
    Chars.IsTrimmed (core ++ dots) ∧ (∀ c ∈ dots, c = '.') ∧ core.getLast? ≠ some '.' ∧
    n = core.map Char.toLower

/-! ### Folding -/

/-- What folding leaves of a text. -/
theorem fold_eq_iff {d n : List Char} : fold d = n ↔ Folds d n := by
  constructor
  · rintro rfl
    obtain ⟨before, after, hd, hbefore, hafter, htrimmed⟩ :=
      Chars.trim_eq_iff.mp (rfl : _ = Chars.trim d)
    obtain ⟨dots, hdots, hall, hlast⟩ :=
      Chars.dropEndWhile_eq_iff.mp (rfl : Chars.dropEndWhile (· == '.') (Chars.trim d) = _)
    refine ⟨before, _, dots, after, hdots ▸ hd, hbefore, hafter, hdots ▸ htrimmed, ?_, ?_, rfl⟩
    · exact fun c hc => by simpa using hall c hc
    · exact fun hdot => by simpa using hlast '.' hdot
  · rintro ⟨before, core, dots, after, hd, hbefore, hafter, htrimmed, hdots, hlast, rfl⟩
    have htrim : Chars.trim d = core ++ dots :=
      Chars.trim_eq_iff.mpr ⟨before, after, hd, hbefore, hafter, htrimmed⟩
    have hcut : Chars.dropEndWhile (· == '.') (core ++ dots) = core := by
      refine Chars.dropEndWhile_eq_iff.mpr ⟨dots, rfl, fun c hc => by simp [hdots c hc], ?_⟩
      intro c hc
      simp only [beq_eq_false_iff_ne]
      rintro rfl
      exact hlast hc
    rw [fold, htrim, hcut]
    rfl

/-! ### Lengths -/

theorem byteLength_eq_sum (s : List Char) : byteLength s = (s.map Char.utf8Size).sum := by
  have hfold : ∀ (s : List Char) (n : Nat),
      s.foldl (fun n c => n + c.utf8Size) n = n + (s.map Char.utf8Size).sum := by
    intro s
    induction s with
    | nil => exact fun n => rfl
    | cons c s ih => intro n; simp [ih, Nat.add_assoc]
  rw [byteLength, hfold, Nat.zero_add]

theorem byteLength_toList (s : String) : byteLength s.toList = s.utf8ByteSize := by
  rw [← String.utf8Len_toList, byteLength_eq_sum]
  induction s.toList with
  | nil => rfl
  | cons c cs ih => rw [List.map_cons, List.sum_cons, ih, String.utf8Len_cons, Nat.add_comm]

/-- The characters of a label are ASCII, and none of them is a blank. -/
theorem toNat_of_isLabelChar (h : isLabelChar c = true) : 0x20 < c.toNat ∧ c.toNat < 0x80 := by
  simp only [isLabelChar, Chars.isAlnum, Char.isAlpha, Char.isUpper, Char.isLower, Char.isDigit,
    Bool.or_eq_true, Bool.and_eq_true, decide_eq_true_eq, beq_iff_eq, ge_iff_le,
    UInt32.le_iff_toNat_le] at h
  obtain (((⟨hge, hle⟩ | ⟨hge, hle⟩) | ⟨hge, hle⟩) | rfl) | rfl := h
  · exact ⟨Nat.lt_of_lt_of_le (by decide) hge, Nat.lt_of_le_of_lt hle (by decide)⟩
  · exact ⟨Nat.lt_of_lt_of_le (by decide) hge, Nat.lt_of_le_of_lt hle (by decide)⟩
  · exact ⟨Nat.lt_of_lt_of_le (by decide) hge, Nat.lt_of_le_of_lt hle (by decide)⟩
  · decide
  · decide

theorem utf8Size_of_isLabelChar (h : isLabelChar c = true) : c.utf8Size = 1 := by
  rw [Char.utf8Size_eq_one_iff, UInt32.le_iff_toNat_le]
  exact Nat.le_of_lt_succ (toNat_of_isLabelChar h).2

/-- The characters of a label take one byte each. -/
theorem byteLength_of_isLabelChar (h : ∀ c ∈ label, isLabelChar c = true) :
    byteLength label = label.length := by
  rw [byteLength_eq_sum, List.map_congr_left fun c hc => utf8Size_of_isLabelChar (h c hc)]
  simp

/-! ### Labels -/

theorem isLabelChar_iff (hcase : c.isUpper = false) :
    isLabelChar c = true ↔ c.isLower = true ∨ c.isDigit = true ∨ c = '-' ∨ c = '_' := by
  simp [isLabelChar, Chars.isAlnum, Char.isAlpha, hcase, or_assoc]

/-- The labels without a fault, in texts without capitals. -/
theorem labelFault?_eq_none_iff (hcase : ∀ c ∈ label, c.isUpper = false) :
    labelFault? label = none ↔ IsLabel label := by
  have hchars : label.all isLabelChar = true ↔
      ∀ c ∈ label, c.isLower = true ∨ c.isDigit = true ∨ c = '-' ∨ c = '_' :=
    List.all_eq_true.trans (forall₂_congr fun c hc => isLabelChar_iff (hcase c hc))
  have hlength : label.all isLabelChar = true → byteLength label = label.length := fun hall =>
    byteLength_of_isLabelChar (List.all_eq_true.mp hall)
  rw [labelFault?]
  constructor
  · intro h
    split at h
    · cases h
    · rename_i hsize
      split at h
      · cases h
      · rename_i hhyphen
        split at h
        · rename_i hall
          rw [hlength hall] at hsize
          push Not at hsize hhyphen
          exact ⟨List.length_pos_iff.mpr hsize.1, hsize.2, hchars.mp hall, hhyphen.1, hhyphen.2⟩
        · cases h
  · rintro ⟨hpos, hle, hall, hhead, hlast⟩
    have hall := hchars.mpr hall
    rw [hlength hall, if_neg, if_neg (by simp [hhead, hlast]), if_pos hall]
    rintro (rfl | hgt)
    · simp at hpos
    · omega

theorem IsLabel.not_mem_dot (h : IsLabel label) : '.' ∉ label := fun hdot => by
  simpa using h.chars '.' hdot

theorem IsLabel.not_mem_star (h : IsLabel label) : '*' ∉ label := fun hstar => by
  simpa using h.chars '*' hstar

/-- A text with a dot and only pieces without a fault is two or more labels. -/
theorem pieces_iff (hcase : ∀ c ∈ name, c.isUpper = false) :
    ('.' ∈ name ∧ (Chars.splitOn '.' name).findSome? labelFault? = none) ↔
      ∃ labels : List (List Char), 2 ≤ labels.length ∧ (∀ label ∈ labels, IsLabel label) ∧
        name = ['.'].intercalate labels := by
  constructor
  · rintro ⟨hdot, hfind⟩
    obtain ⟨hjoin, -, hpieces⟩ := Chars.splitOn_eq_iff.mp (rfl : Chars.splitOn '.' name = _)
    refine ⟨_, ?_, fun label hlabel => ?_, hjoin.symm⟩
    · -- a single piece would be the whole text, which has a dot
      rw [← hjoin, Chars.mem_intercalate] at hdot
      exact (hdot.resolve_left fun ⟨piece, hpiece, hmem⟩ => hpieces piece hpiece hmem).2
    · refine (labelFault?_eq_none_iff fun c hc => hcase c ?_).mp
        (List.findSome?_eq_none_iff.mp hfind label hlabel)
      rw [← hjoin]
      exact Chars.mem_intercalate.mpr (.inl ⟨label, hlabel, hc⟩)
  · rintro ⟨labels, hlength, hlabels, rfl⟩
    have hsplit : Chars.splitOn '.' (['.'].intercalate labels) = labels :=
      Chars.splitOn_eq_iff.mpr ⟨rfl, fun hnil => by simp [hnil] at hlength,
        fun label hlabel => (hlabels label hlabel).not_mem_dot⟩
    refine ⟨Chars.mem_intercalate.mpr (.inr ⟨rfl, hlength⟩), ?_⟩
    rw [hsplit, List.findSome?_eq_none_iff]
    intro label hlabel
    refine (labelFault?_eq_none_iff fun c hc => hcase c ?_).mpr (hlabels label hlabel)
    exact Chars.mem_intercalate.mpr (.inl ⟨label, hlabel, hc⟩)

/-! ### Names -/

/-- The characters of a name. -/
theorem IsName.chars (h : IsName allowWildcard name) (hc : c ∈ name) :
    isLabelChar c = true ∨ c = '.' ∨ c = '*' := by
  obtain ⟨labels, -, hlabels, hname⟩ := h
  have hjoin : c ∈ ['.'].intercalate labels → isLabelChar c = true ∨ c = '.' ∨ c = '*' := by
    intro hc
    obtain ⟨label, hlabel, hc⟩ | ⟨rfl, -⟩ := Chars.mem_intercalate.mp hc
    · refine .inl ?_
      simp only [isLabelChar, Chars.isAlnum, Char.isAlpha, Bool.or_eq_true, beq_iff_eq]
      have := (hlabels label hlabel).chars c hc
      tauto
    · exact .inr (.inl rfl)
  obtain rfl | ⟨-, rfl⟩ := hname
  · exact hjoin hc
  · obtain rfl | hc := List.mem_cons.mp hc
    · exact .inr (.inr rfl)
    · obtain rfl | hc := List.mem_cons.mp hc
      · exact .inr (.inl rfl)
      · exact hjoin hc

theorem IsName.ne_nil (h : IsName allowWildcard name) : name ≠ [] := by
  obtain ⟨labels, hlength, -, rfl | ⟨-, rfl⟩⟩ := h
  · exact List.ne_nil_of_mem (Chars.mem_intercalate.mpr (.inr ⟨rfl, hlength⟩))
  · exact List.cons_ne_nil _ _

/-- A row of labels does not begin with a star. -/
theorem intercalate_ne_star (hlabels : ∀ label ∈ labels, IsLabel label) (rest : List Char) :
    ['.'].intercalate labels ≠ '*' :: rest := by
  intro hjoin
  have hstar : '*' ∈ ['.'].intercalate labels := hjoin ▸ List.mem_cons_self
  obtain ⟨label, hlabel, hstar⟩ | ⟨hdot, -⟩ := Chars.mem_intercalate.mp hstar
  · exact (hlabels label hlabel).not_mem_star hstar
  · cases hdot

theorem splitWildcard_of_ne_star (h : ∀ rest, name ≠ '*' :: '.' :: rest) :
    splitWildcard name = (false, name) := by
  have hstrip : Chars.stripStart? ['*', '.'] name = none := by
    rw [Option.eq_none_iff_forall_ne_some]
    exact fun rest hrest => h rest (Chars.stripStart?_eq_some_iff.mp hrest)
  rw [splitWildcard, hstrip]

/-- The names without a fault, in texts without capitals. -/
theorem fault?_eq_none_iff (hcase : ∀ c ∈ name, c.isUpper = false) :
    fault? allowWildcard name = none ↔ byteLength name ≤ 253 ∧ IsName allowWildcard name := by
  have hite : ∀ {p : Prop} [Decidable p] {fault : Fault} {x : Option Fault},
      (if p then some fault else x) = none ↔ ¬ p ∧ x = none := by
    intro p _ fault x
    split <;> simp [*]
  rw [fault?, hite, hite]
  by_cases hstar : ∃ rest, name = '*' :: '.' :: rest
  · obtain ⟨rest, rfl⟩ := hstar
    have hname : IsName allowWildcard ('*' :: '.' :: rest) ↔ allowWildcard = true ∧
        ('.' ∈ rest ∧ (Chars.splitOn '.' rest).findSome? labelFault? = none) := by
      rw [pieces_iff fun c hc => hcase c (List.mem_cons_of_mem _ (List.mem_cons_of_mem _ hc))]
      constructor
      · rintro ⟨labels, hlength, hlabels, hjoin | ⟨hallow, hjoin⟩⟩
        · exact absurd hjoin.symm (intercalate_ne_star hlabels _)
        · exact ⟨hallow, labels, hlength, hlabels, by simpa using hjoin⟩
      · rintro ⟨hallow, labels, hlength, hlabels, rfl⟩
        exact ⟨labels, hlength, hlabels, .inr ⟨hallow, rfl⟩⟩
    rw [hname, show splitWildcard ('*' :: '.' :: rest) = (true, rest) from rfl]
    simp only [hite, true_and, Decidable.not_not, Nat.not_lt, reduceCtorEq, not_false_eq_true]
  · have hname : IsName allowWildcard name ↔
        '.' ∈ name ∧ (Chars.splitOn '.' name).findSome? labelFault? = none := by
      rw [pieces_iff hcase]
      constructor
      · rintro ⟨labels, hlength, hlabels, hjoin | ⟨-, hjoin⟩⟩
        · exact ⟨labels, hlength, hlabels, hjoin⟩
        · exact absurd ⟨_, hjoin⟩ hstar
      · rintro ⟨labels, hlength, hlabels, hjoin⟩
        exact ⟨labels, hlength, hlabels, .inl hjoin⟩
    have hne : '.' ∈ name → name ≠ [] := List.ne_nil_of_mem
    rw [hname, splitWildcard_of_ne_star fun rest hrest => hstar ⟨rest, hrest⟩]
    simp only [hite, Bool.false_eq_true, false_and, not_false_eq_true, true_and]
    simp only [Decidable.not_not, Nat.not_lt]
    tauto

/-- **The texts that are accepted as domain names**, and what they are normalized to. -/
theorem normalize_eq_ok_iff {d n : String} : normalize d allowWildcard = .ok n ↔
    Folds d.toList n.toList ∧ n.utf8ByteSize ≤ 253 ∧ IsName allowWildcard n.toList := by
  have hcase : ∀ c ∈ fold d.toList, c.isUpper = false := fun c => Chars.not_isUpper_of_mem_lower
  rw [← fold_eq_iff, ← byteLength_toList, normalize]
  constructor
  · intro h
    split at h
    · cases h
    · rename_i hfault
      cases h
      rw [String.toList_ofList]
      exact ⟨rfl, (fault?_eq_none_iff hcase).mp hfault⟩
  · rintro ⟨hfold, hlength, hname⟩
    rw [hfold] at hcase ⊢
    rw [(fault?_eq_none_iff hcase).mpr ⟨hlength, hname⟩, String.ofList_toList]

theorem IsName.isTrimmed (h : IsName allowWildcard name) : Chars.IsTrimmed name := by
  have hblank : ∀ c ∈ name, Chars.isBlank c = false := by
    intro c hc
    obtain hlabel | rfl | rfl := h.chars hc
    · have := toNat_of_isLabelChar hlabel
      rw [← Bool.not_eq_true]
      simp only [Chars.isBlank, Bool.or_eq_true, Bool.and_eq_true, decide_eq_true_eq, beq_iff_eq]
      omega
    · rfl
    · rfl
  exact ⟨fun c hc => hblank c (List.mem_of_mem_head? hc),
    fun c hc => hblank c (List.mem_of_mem_getLast? hc)⟩

/-- A name that was normalized is its own normal form. -/
theorem normalize_idem {d n : String} (h : normalize d allowWildcard = .ok n) :
    normalize n allowWildcard = .ok n := by
  obtain ⟨⟨_, core, _, _, -, -, -, -, -, hlast, hlower⟩, hlength, hname⟩ := normalize_eq_ok_iff.mp h
  have hsame : n.toList = n.toList.map Char.toLower := by
    rw [hlower]
    exact (Chars.lower_lower core).symm
  have hdot : n.toList.getLast? ≠ some '.' := by
    rw [hlower, List.getLast?_map]
    intro h
    obtain ⟨c, hc, hdot⟩ := Option.map_eq_some_iff.mp h
    exact hlast (hc.trans (congrArg some ((Chars.toLower_eq_iff rfl).mp hdot)))
  exact normalize_eq_ok_iff.mpr ⟨⟨[], n.toList, [], [], by simp, nofun, nofun,
    by simpa using hname.isTrimmed, nofun, hdot, hsame⟩, hlength, hname⟩

end Domain

end CertSteward
