import CertSteward.Authority.Remote
import CertSteward.Proofs.Domain.NameList

/-!
# Reported names and the names that were ordered

A remote authority reports a wildcard under the name below it. Each reported name is given the first
ordered name that is left and is this name or its wildcard. Taking greedily could leave a later name
without its own; it does not, because for a reported name that is no wildcard itself the ordered
names behind it are those with this base, and so any one of them is as good as any other.

## Main definitions

* `Domain.IsBare` — names that are no wildcards
* `RemoteAuthority.IsBehind` — an ordered name may stand behind a reported one

## Main results

* `RemoteAuthority.matchName_cases` — what is taken for one name
* `RemoteAuthority.exists_taken` — no place is taken twice
* `RemoteAuthority.matchNames_attributes` — the ordered names are given out, each once, to reported
  names that are their bases
-/

namespace CertSteward

theorem Text.sameIgnoringCase_iff_lower_eq {s t : String} :
    Text.sameIgnoringCase s t = true ↔ Text.lower s = Text.lower t := by
  rw [sameIgnoringCase, Chars.sameIgnoringCase, beq_iff_eq, lower, lower, String.ofList_inj]

/-! ### Names that are no wildcards -/

namespace Domain

variable {d n name : String} {allowWildcard : Bool}

/-- A name that is no wildcard. -/
def IsBare (name : String) : Prop := ∀ rest, name.toList ≠ '*' :: '.' :: rest

/-- The mark of a wildcard is the same in either case. -/
theorem lower_eq_star_iff {s t : List Char} :
    Chars.lower s = '*' :: '.' :: t ↔ ∃ rest, s = '*' :: '.' :: rest ∧ Chars.lower rest = t := by
  constructor
  · intro h
    obtain ⟨a, s, rfl, ha, h⟩ := List.map_eq_cons_iff.mp h
    obtain ⟨b, s, rfl, hb, h⟩ := List.map_eq_cons_iff.mp h
    rw [Chars.toLower_eq_iff rfl] at ha hb
    exact ⟨s, by rw [ha, hb], h⟩
  · rintro ⟨rest, rfl, rfl⟩
    rfl

theorem IsBare.of_lower_eq (h : IsBare n) (heq : Text.lower name = Text.lower n) : IsBare name := by
  intro rest hrest
  rw [Text.lower, Text.lower, String.ofList_inj, hrest] at heq
  obtain ⟨rest', hrest', -⟩ := lower_eq_star_iff.mp heq.symm
  exact h rest' hrest'

theorem IsBare.base_eq (h : IsBare name) : base name = name := by
  rw [base, splitWildcard_of_ne_star h, String.ofList_toList]

theorem not_isBare_wildcardOf (name : String) : ¬ IsBare (wildcardOf name) :=
  fun h => h _ (toList_wildcardOf name)

theorem lower_wildcardOf_inj :
    Text.lower (wildcardOf name) = Text.lower (wildcardOf n) ↔ Text.lower name = Text.lower n := by
  simp only [Text.lower, String.ofList_inj, toList_wildcardOf, Chars.lower, List.map_cons,
    List.cons.injEq, true_and]

/-- Every name is the wildcard of its base or no wildcard. -/
theorem eq_wildcardOf_or_isBare (name : String) : name = wildcardOf (base name) ∨ IsBare name := by
  by_cases h : ∃ rest, name.toList = '*' :: '.' :: rest
  · obtain ⟨rest, hrest⟩ := h
    left
    rw [← String.toList_inj, toList_wildcardOf, base, hrest, String.toList_ofList]
    rfl
  · exact .inr fun rest hrest => h ⟨rest, hrest⟩

/-- An accepted name has one star at most. -/
theorem isBare_base_of_normalize (h : normalize d allowWildcard = .ok n) : IsBare (base d) := by
  obtain ⟨⟨before, core, dots, after, hd, hbefore, -, -, -, -, hlower⟩, -, hname⟩ :=
    normalize_eq_ok_iff.mp h
  obtain hwild | hbare := eq_wildcardOf_or_isBare d
  · intro rest hrest
    -- with a second star the core of the name would be a star before a row of labels with a star
    have hstars : before ++ (core ++ dots) ++ after = '*' :: '.' :: '*' :: '.' :: rest := by
      rw [← hd, hwild, toList_wildcardOf, hrest]
    obtain rfl : before = [] := by
      refine List.eq_nil_iff_forall_not_mem.mpr fun c hc => ?_
      obtain ⟨b, before', rfl⟩ := List.exists_cons_of_ne_nil (List.ne_nil_of_mem hc)
      obtain rfl : b = '*' := (List.cons.inj hstars).1
      exact absurd (hbefore '*' List.mem_cons_self) (by decide)
    obtain ⟨labels, hlength, hlabels, hjoin⟩ := hname
    have hbare : IsName false (['.'].intercalate labels) := ⟨labels, hlength, hlabels, .inl rfl⟩
    have hne := hbare.ne_nil
    have hstar : Chars.lower core = '*' :: '.' :: ['.'].intercalate labels := by
      obtain hjoin | ⟨-, hjoin⟩ := hjoin
      · obtain ⟨a, core', rfl⟩ : ∃ a core', core = a :: core' := by
          refine List.exists_cons_of_ne_nil fun hnil => hne ?_
          rw [← hjoin, hlower, hnil, List.map_nil]
        obtain rfl : a = '*' := (List.cons.inj hstars).1
        exact absurd (hjoin.symm.trans hlower) (intercalate_ne_star hlabels _)
      · exact hlower.symm.trans hjoin
    obtain ⟨core', rfl, hcore⟩ := lower_eq_star_iff.mp hstar
    obtain ⟨a, core', rfl⟩ : ∃ a core'', core' = a :: core'' := by
      refine List.exists_cons_of_ne_nil fun hnil => hne ?_
      rw [← hcore, hnil]
      rfl
    obtain rfl : a = '*' := (List.cons.inj (List.cons.inj (List.cons.inj hstars).2).2).1
    exact intercalate_ne_star hlabels _ hcore.symm
  · rw [hbare.base_eq]
    exact hbare

end Domain

/-! ### What is taken -/

namespace RemoteAuthority

variable {p : String → Bool} {id name : String} {left rest order reported : List String}

theorem takeFirst_eq_some {x : String} (h : takeFirst p left = some (x, rest)) :
    ∃ before after, left = before ++ x :: after ∧ rest = before ++ after ∧ p x = true := by
  induction left generalizing rest with
  | nil => cases h
  | cons y left ih =>
    rw [takeFirst] at h
    split at h
    · rename_i hy
      cases h
      exact ⟨[], left, rfl, rfl, hy⟩
    · obtain ⟨⟨z, rest'⟩, htake, heq⟩ := Option.map_eq_some_iff.mp h
      cases heq
      obtain ⟨before, after, rfl, rfl, hx⟩ := ih htake
      exact ⟨y :: before, after, rfl, rfl, hx⟩

theorem takeFirst_eq_none (h : takeFirst p left = none) : ∀ x ∈ left, p x = false := by
  induction left with
  | nil => exact nofun
  | cons y left ih =>
    rw [takeFirst] at h
    split at h
    · cases h
    · rename_i hy
      exact List.forall_mem_cons.mpr ⟨Bool.not_eq_true _ ▸ hy, ih (Option.map_eq_none_iff.mp h)⟩

/-- An ordered name may stand behind a reported one: it is the name, or its wildcard. -/
def IsBehind (id name : String) : Prop :=
  Text.lower id = Text.lower name ∨ Text.lower id = Text.lower (Domain.wildcardOf name)

/-- Behind a name that is no wildcard stand the names with this base. -/
theorem isBehind_iff (h : Domain.IsBare name) :
    IsBehind id name ↔ Text.lower (Domain.base id) = Text.lower name := by
  obtain hwild | hbare := Domain.eq_wildcardOf_or_isBare id
  · generalize Domain.base id = base at hwild ⊢
    subst hwild
    refine ⟨fun hbehind => Domain.lower_wildcardOf_inj.mp (hbehind.resolve_left fun hself => ?_),
      fun hbase => .inr (Domain.lower_wildcardOf_inj.mpr hbase)⟩
    exact Domain.not_isBare_wildcardOf base (h.of_lower_eq hself)
  · rw [hbare.base_eq]
    refine ⟨fun hbehind => hbehind.resolve_right fun hwild => ?_, .inl⟩
    exact Domain.not_isBare_wildcardOf name (hbare.of_lower_eq hwild.symm)

/-- What is taken for one name: an ordered name that is left and may stand behind it, or none as
there is none left. -/
theorem matchName_cases (left : List String) (name : String) :
    (∃ id before after, left = before ++ id :: after ∧
      matchName left name = (id, before ++ after) ∧ IsBehind id name) ∨
    matchName left name = (name, left) ∧ ∀ id ∈ left, ¬ IsBehind id name := by
  rw [matchName]
  cases hself : takeFirst (Text.sameIgnoringCase · name) left with
  | some found =>
    obtain ⟨before, after, hleft, hrest, hsame⟩ := takeFirst_eq_some hself
    exact .inl ⟨found.1, before, after, hleft, by rw [← hrest],
      .inl (Text.sameIgnoringCase_iff_lower_eq.mp hsame)⟩
  | none =>
    cases hwild : takeFirst (Text.sameIgnoringCase · (Domain.wildcardOf name)) left with
    | some found =>
      obtain ⟨before, after, hleft, hrest, hsame⟩ := takeFirst_eq_some hwild
      exact .inl ⟨found.1, before, after, hleft, by rw [← hrest],
        .inr (Text.sameIgnoringCase_iff_lower_eq.mp hsame)⟩
    | none =>
      refine .inr ⟨rfl, fun id hid => ?_⟩
      rintro (hsame | hsame)
      · rw [← Text.sameIgnoringCase_iff_lower_eq, takeFirst_eq_none hself id hid] at hsame
        cases hsame
      · rw [← Text.sameIgnoringCase_iff_lower_eq, takeFirst_eq_none hwild id hid] at hsame
        cases hsame

/-! ### What is given out -/

theorem matchNames_cons (left : List String) (name : String) (reported : List String) :
    matchNames left (name :: reported) =
      (matchName left name).1 :: matchNames (matchName left name).2 reported := rfl

theorem length_matchNames (left reported : List String) :
    (matchNames left reported).length = reported.length := by
  induction reported generalizing left with
  | nil => rfl
  | cons name reported ih => exact congrArg (· + 1) (ih _)

/-- Of names at places each place is taken once at most, for one reported name; a name for which
none is taken stays as it is. -/
theorem exists_taken (left : List (String × Nat)) (reported : List String) :
    ∃ taken : List (Option (String × Nat)), ∃ rest, taken.length = reported.length ∧
      (taken.reduceOption ++ rest).Perm left ∧
      matchNames (left.map (·.1)) reported =
        List.zipWith Option.getD (taken.map (Option.map (·.1))) reported := by
  induction reported generalizing left with
  | nil => exact ⟨[], left, rfl, .rfl, rfl⟩
  | cons name reported ih =>
    obtain ⟨id, before, after, hleft, hmatch, -⟩ | ⟨hmatch, -⟩ :=
      matchName_cases (left.map (·.1)) name
    · obtain ⟨before, after', rfl, rfl, hafter⟩ := List.map_eq_append_iff.mp hleft
      obtain ⟨place, after, rfl, rfl, rfl⟩ := List.map_eq_cons_iff.mp hafter
      obtain ⟨taken, rest, hlength, hperm, hnames⟩ := ih (before ++ after)
      refine ⟨some place :: taken, rest, congrArg (· + 1) hlength, ?_, ?_⟩
      · rw [List.reduceOption_cons_of_some, List.cons_append]
        exact (hperm.cons place).trans List.perm_middle.symm
      · rw [matchNames_cons, hmatch, ← List.map_append, hnames]
        rfl
    · obtain ⟨taken, rest, hlength, hperm, hnames⟩ := ih left
      refine ⟨none :: taken, rest, congrArg (· + 1) hlength, hperm, ?_⟩
      rw [matchNames_cons, hmatch, hnames]
      rfl

/-- Reported names that are the bases of the names that are left, in any order and any case, are
given these names, each one of which it is the base. -/
theorem matchNames_of_perm (hbare : ∀ name ∈ reported, Domain.IsBare name)
    (h : (left.map fun id => Text.lower (Domain.base id)).Perm (reported.map Text.lower)) :
    (matchNames left reported).Perm left ∧
      List.Forall₂ (fun id name => Text.lower (Domain.base id) = Text.lower name)
        (matchNames left reported) reported := by
  induction reported generalizing left with
  | nil =>
    obtain rfl : left = [] := by simpa using h.length_eq
    exact ⟨.rfl, .nil⟩
  | cons name reported ih =>
    have hname : ∀ {id}, IsBehind id name ↔ Text.lower (Domain.base id) = Text.lower name :=
      isBehind_iff (hbare name List.mem_cons_self)
    obtain ⟨id, before, after, rfl, hmatch, hbehind⟩ | ⟨-, hnone⟩ := matchName_cases left name
    · rw [hname] at hbehind
      have hrest : ((before ++ after).map fun id => Text.lower (Domain.base id)).Perm
          (reported.map Text.lower) := by
        rw [List.map_append, List.map_cons, hbehind, List.map_cons] at h
        rw [List.map_append]
        exact (List.perm_middle.symm.trans h).cons_inv
      obtain ⟨hperm, hbases⟩ := ih (fun n hn => hbare n (List.mem_cons_of_mem _ hn)) hrest
      rw [matchNames_cons, hmatch]
      exact ⟨(hperm.cons id).trans List.perm_middle.symm, .cons hbehind hbases⟩
    · -- a name whose base is reported would be behind the reported name
      obtain ⟨id, hid, hbase⟩ := List.mem_map.mp (h.mem_iff.mpr List.mem_cons_self)
      exact absurd (hname.mpr hbase) (hnone id hid)

/-- No place in the order is used twice. -/
theorem exists_places (order reported : List String) :
    ∃ places : List (Option Nat), places.length = reported.length ∧
      places.reduceOption.Nodup ∧ (∀ i ∈ places.reduceOption, i < order.length) ∧
      matchNames order reported =
        List.zipWith (fun place name => (place.bind (order[·]?)).getD name) places reported := by
  obtain ⟨taken, rest, hlength, hperm, hnames⟩ := exists_taken order.zipIdx reported
  have hordered : ∀ place ∈ taken.reduceOption, order[place.2]? = some place.1 := fun place hp =>
    List.mem_zipIdx_iff_getElem?.mp (hperm.mem_iff.mp (List.mem_append_left _ hp))
  have hnodup : (taken.reduceOption.map (·.2)).Nodup := by
    have hall : ((taken.reduceOption ++ rest).map (·.2)).Nodup := by
      rw [(hperm.map _).nodup_iff, List.zipIdx_map_snd]
      exact List.nodup_range'
    rw [List.map_append] at hall
    exact hall.of_append_left
  have hplaces : taken.map (Option.map (·.1)) =
      (taken.map (Option.map (·.2))).map fun place => place.bind (order[·]?) := by
    rw [List.map_map]
    refine List.map_congr_left fun place hplace => ?_
    cases place with
    | none => rfl
    | some place => exact (hordered place (List.reduceOption_mem_iff.mpr hplace)).symm
  refine ⟨taken.map (Option.map (·.2)), by rw [List.length_map, hlength], ?_, ?_, ?_⟩
  · rw [List.reduceOption_map]
    exact hnodup
  · intro i hi
    rw [List.reduceOption_map] at hi
    obtain ⟨place, hplace, rfl⟩ := List.mem_map.mp hi
    exact (List.getElem?_eq_some_iff.mp (hordered place hplace)).1
  · rw [List.zipIdx_map_fst, hplaces] at hnames
    rw [hnames, List.zipWith_map_left]

/-- **Reported names are attributed to the names that were ordered.** There is one name for each
reported name, and no place in the order is used twice. If the order is of domain names and its
bases are what is reported, in any order and any case, then each ordered name is given out once, to
a reported name that is its base. -/
theorem matchNames_attributes (order reported : List String) :
    (matchNames order reported).length = reported.length ∧
    (∃ places : List (Option Nat), places.length = reported.length ∧
      places.reduceOption.Nodup ∧ (∀ i ∈ places.reduceOption, i < order.length) ∧
      matchNames order reported =
        List.zipWith (fun place name => (place.bind (order[·]?)).getD name) places reported) ∧
    ((∀ id ∈ order, ∃ allowWildcard n, Domain.normalize id allowWildcard = .ok n) →
      (reported.map Text.lower).Perm (order.map fun id => Text.lower (Domain.base id)) →
      (matchNames order reported).Perm order ∧
        List.Forall₂ (fun id name => Text.sameIgnoringCase (Domain.base id) name = true)
          (matchNames order reported) reported) := by
  refine ⟨length_matchNames order reported, exists_places order reported,
    fun haccepted hreported => ?_⟩
  have hbare : ∀ name ∈ reported, Domain.IsBare name := by
    intro name hname
    obtain ⟨id, hid, hbase⟩ :=
      List.mem_map.mp (hreported.mem_iff.mp (List.mem_map_of_mem hname))
    obtain ⟨_, _, hnormal⟩ := haccepted id hid
    exact (Domain.isBare_base_of_normalize hnormal).of_lower_eq hbase.symm
  obtain ⟨hperm, hbases⟩ := matchNames_of_perm hbare hreported.symm
  exact ⟨hperm, hbases.imp fun _ _ => Text.sameIgnoringCase_iff_lower_eq.mpr⟩

/-- An order of a domain with its wildcard and of the wildcard of another. -/
def sampleOrdered : List String := ["example.com", "*.example.com", "*.a.org"]

/-- What is reported of it. -/
def sampleReported : List String := ["A.org", "EXAMPLE.com", "example.com"]

/-- The second report of a domain is for its wildcard. -/
theorem matchNames_attributes_sampleOrdered :
    (∀ id ∈ sampleOrdered, ∃ allowWildcard n, Domain.normalize id allowWildcard = .ok n) ∧
    (sampleReported.map Text.lower).Perm (sampleOrdered.map fun id => Text.lower (Domain.base id)) ∧
    matchNames sampleOrdered sampleReported = ["*.a.org", "example.com", "*.example.com"] ∧
    (matchNames sampleOrdered sampleReported).Perm sampleOrdered ∧
    List.Forall₂ (fun id name => Text.sameIgnoringCase (Domain.base id) name = true)
      (matchNames sampleOrdered sampleReported) sampleReported := by
  have haccepted : ∀ id ∈ sampleOrdered,
      ∃ allowWildcard n, Domain.normalize id allowWildcard = .ok n := by
    intro id hid
    refine ⟨true, id, ?_⟩
    simp only [sampleOrdered, List.mem_cons, List.not_mem_nil, or_false] at hid
    obtain rfl | rfl | rfl := hid <;> rfl
  have hreported : (sampleReported.map Text.lower).Perm
      (sampleOrdered.map fun id => Text.lower (Domain.base id)) := by
    decide
  obtain ⟨-, -, hgiven⟩ := matchNames_attributes sampleOrdered sampleReported
  exact ⟨haccepted, hreported, by decide, hgiven haccepted hreported⟩

end RemoteAuthority

end CertSteward
