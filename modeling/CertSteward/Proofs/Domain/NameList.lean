import CertSteward.Domain.Name
import CertSteward.Proofs.Domain.Name

/-!
# The list of names of normalized domains

Of normalized names nothing has to be cut off, and two of them are the same up to case if they are
the same. So the list of the names of a certificate is made by nothing but leaving out what is there
already.

## Main definitions

* `Domain.IsSmall` — names without capitals
* `Domain.inOrder` — the names of a certificate, as they come

## Main results

* `Text.sameIgnoringCase_iff` — names without capitals that are the same up to case
* `foldl_addName` — different names without capitals are all added
* `mem_nameList?` — the names of a list are among those that were considered
-/

namespace CertSteward

/-! ### Names without capitals -/

/-- A name without capitals. -/
def Domain.IsSmall (name : String) : Prop := Chars.lower name.toList = name.toList

theorem Text.sameIgnoringCase_iff {s t : String} (hs : Domain.IsSmall s) (ht : Domain.IsSmall t) :
    Text.sameIgnoringCase s t = true ↔ s = t := by
  rw [Text.sameIgnoringCase, Chars.sameIgnoringCase, hs, ht, beq_iff_eq, String.toList_inj]

namespace Domain

variable {d n : String} {allowWildcard : Bool}

/-- A normalized name has no capitals. -/
theorem isSmall_of_normalize (h : normalize d allowWildcard = .ok n) : IsSmall n := by
  obtain ⟨⟨_, core, _, _, -, -, -, -, -, -, hlower⟩, -, -⟩ := normalize_eq_ok_iff.mp h
  rw [IsSmall, hlower]
  exact Chars.lower_lower core

theorem toList_wildcardOf (n : String) : (wildcardOf n).toList = '*' :: '.' :: n.toList := by
  rw [wildcardOf, String.toList_append]
  rfl

theorem IsSmall.wildcardOf (h : IsSmall n) : IsSmall (wildcardOf n) := by
  rw [IsSmall, toList_wildcardOf]
  exact congrArg (fun s => '*' :: '.' :: s) h

theorem wildcardOf_ne (n : String) : wildcardOf n ≠ n := by
  intro h
  have hlength := congrArg (fun s => s.toList.length) h
  simp only [toList_wildcardOf, List.length_cons] at hlength
  omega

theorem wildcardOf_ne_empty (n : String) : wildcardOf n ≠ "" := by
  intro h
  have hlist := congrArg String.toList h
  simp [toList_wildcardOf] at hlist

theorem ne_empty_of_normalize (h : normalize d allowWildcard = .ok n) : n ≠ "" := by
  rintro rfl
  obtain ⟨-, -, hname⟩ := normalize_eq_ok_iff.mp h
  exact hname.ne_nil rfl

/-- There is more to an accepted name than blanks. -/
theorem trim_ne_empty_of_normalize (h : normalize d allowWildcard = .ok n) : Text.trim d ≠ "" := by
  obtain ⟨hfolds, -, hname⟩ := normalize_eq_ok_iff.mp h
  intro hempty
  have htrim : Chars.trim d.toList = [] := String.ofList_eq_empty_iff.mp hempty
  have hfold := fold_eq_iff.mpr hfolds
  rw [fold, htrim] at hfold
  exact hname.ne_nil hfold.symm

/-- Of a normalized name nothing is cut off. -/
theorem trim_of_normalize (h : normalize d allowWildcard = .ok n) : Text.trim n = n := by
  obtain ⟨-, -, hname⟩ := normalize_eq_ok_iff.mp h
  rw [Text.trim, hname.isTrimmed.trim_eq, String.ofList_toList]

/-- The names of a certificate for a primary domain and further ones as they come: each once, the
wildcard of the primary domain at the end. -/
def inOrder (primary : String) (others : List String) (wildcard : Bool) : List String :=
  primary :: (others.filter fun n => n ≠ primary ∧ n ≠ wildcardOf primary).eraseDups ++
    if wildcard = true ∨ wildcardOf primary ∈ others then [wildcardOf primary] else []

end Domain

/-! ### The list -/

variable {names : List String} {primary : String} {others : List String} {wildcard : Bool}

/-- Different names without capitals are all added. -/
theorem foldl_addName {acc : List String} (hnodup : (acc ++ names).Nodup)
    (hsmall : ∀ n ∈ acc ++ names, Domain.IsSmall n) (hne : ∀ n ∈ names, n ≠ "") :
    names.foldl addName acc = acc ++ names := by
  induction names generalizing acc with
  | nil => rw [List.foldl_nil, List.append_nil]
  | cons n names ih =>
    have hadd : addName acc n = acc ++ [n] := by
      have hnew : n ∉ acc := fun hn =>
        (List.nodup_append.mp hnodup).2.2 n hn n List.mem_cons_self rfl
      have hany : ¬ (acc.any (Text.sameIgnoringCase · n) = true) := by
        rw [List.any_eq_true]
        rintro ⟨m, hm, hsame⟩
        have hm' : m = n := (Text.sameIgnoringCase_iff (hsmall m (List.mem_append_left _ hm))
          (hsmall n (List.mem_append_right _ List.mem_cons_self))).mp hsame
        exact hnew (hm' ▸ hm)
      have hempty : ¬ (n.isEmpty = true) := by
        rw [String.isEmpty_iff]
        exact hne n List.mem_cons_self
      rw [addName, if_neg (not_or.mpr ⟨hempty, hany⟩)]
    rw [List.foldl_cons, hadd, ih]
    · rw [List.append_assoc, List.singleton_append]
    · rwa [List.append_assoc, List.singleton_append]
    · rwa [List.append_assoc, List.singleton_append]
    · exact fun m hm => hne m (List.mem_cons_of_mem _ hm)

/-- What is left of a list without repetitions has none. -/
theorem nodup_eraseDups (l : List String) : l.eraseDups.Nodup := by
  match l with
  | [] => exact List.nodup_nil
  | a :: l =>
    rw [List.eraseDups_cons, List.nodup_cons]
    refine ⟨fun ha => ?_, nodup_eraseDups _⟩
    simpa using (List.mem_filter.mp (List.mem_eraseDups.mp ha)).2
termination_by l.length
decreasing_by exact Nat.lt_succ_of_le (List.length_filter_le _ _)

namespace Domain

variable {d p : String} {ns : List String}

theorem mem_inOrder {n : String} : n ∈ inOrder p ns wildcard ↔
    n = p ∨ (n ∈ ns ∧ n ≠ p ∧ n ≠ wildcardOf p) ∨
      n = wildcardOf p ∧ (wildcard = true ∨ wildcardOf p ∈ ns) := by
  rw [inOrder]
  split <;> simp [List.mem_eraseDups, *]

/-- The wildcard of the primary domain is there if it was asked for in either way. -/
theorem wildcardOf_mem_inOrder :
    wildcardOf p ∈ inOrder p ns wildcard ↔ wildcard = true ∨ wildcardOf p ∈ ns := by
  rw [mem_inOrder]
  have hne := wildcardOf_ne p
  tauto

theorem nodup_inOrder : (inOrder p ns wildcard).Nodup := by
  have hne := wildcardOf_ne p
  rw [inOrder, List.nodup_append]
  refine ⟨List.nodup_cons.mpr ⟨fun hp => ?_, nodup_eraseDups _⟩, ?_, ?_⟩
  · simpa using (List.mem_filter.mp (List.mem_eraseDups.mp hp)).2
  · split <;> simp
  · intro a ha b hb hab
    subst hab
    split at hb
    · obtain rfl := List.mem_singleton.mp hb
      obtain ha | ha := List.mem_cons.mp ha
      · exact hne ha
      · simpa using (List.mem_filter.mp (List.mem_eraseDups.mp ha)).2
    · cases hb

section Normalized

variable (hp : normalize d false = .ok p) (hns : ∀ n ∈ ns, ∃ d, normalize d true = .ok n)

include hp hns

theorem isSmall_of_mem_inOrder {n : String} (hn : n ∈ inOrder p ns wildcard) : IsSmall n := by
  obtain rfl | ⟨hn, -⟩ | ⟨rfl, -⟩ := mem_inOrder.mp hn
  · exact isSmall_of_normalize hp
  · obtain ⟨d, hd⟩ := hns n hn
    exact isSmall_of_normalize hd
  · exact (isSmall_of_normalize hp).wildcardOf

/-- No two names are the same up to case. -/
theorem pairwise_inOrder : (inOrder p ns wildcard).Pairwise fun a b =>
    Text.sameIgnoringCase a b = false := by
  refine nodup_inOrder.imp_of_mem fun {a b} ha hb hne => ?_
  rw [← Bool.not_eq_true, Text.sameIgnoringCase_iff (isSmall_of_mem_inOrder hp hns ha)
    (isSmall_of_mem_inOrder hp hns hb)]
  exact hne

/-- The list of normalized names, each once, is these names as they come. -/
theorem nameList?_eq_inOrder :
    nameList? p (ns.filter fun n => n ≠ p ∧ n ≠ wildcardOf p).eraseDups
      (wildcard || decide (wildcardOf p ∈ ns)) = some (inOrder p ns wildcard) := by
  have hcandidates : nameCandidates p (ns.filter fun n => n ≠ p ∧ n ≠ wildcardOf p).eraseDups
      (wildcard || decide (wildcardOf p ∈ ns)) = inOrder p ns wildcard := by
    have hothers : (ns.filter fun n => n ≠ p ∧ n ≠ wildcardOf p).eraseDups.map Text.trim =
        (ns.filter fun n => n ≠ p ∧ n ≠ wildcardOf p).eraseDups := by
      refine (List.map_congr_left fun n hn => ?_).trans (List.map_id _)
      obtain ⟨d, hd⟩ := hns n (List.mem_filter.mp (List.mem_eraseDups.mp hn)).1
      exact trim_of_normalize hd
    rw [nameCandidates, trim_of_normalize hp, hothers, inOrder,
      show "*." ++ p = wildcardOf p from rfl]
    simp [ne_empty_of_normalize hp]
  have hfold : (inOrder p ns wildcard).foldl addName [] = inOrder p ns wildcard := by
    refine foldl_addName nodup_inOrder (fun n => isSmall_of_mem_inOrder hp hns) fun n hn => ?_
    obtain rfl | ⟨hn, -⟩ | ⟨rfl, -⟩ := mem_inOrder.mp hn
    · exact ne_empty_of_normalize hp
    · obtain ⟨d, hd⟩ := hns n hn
      exact ne_empty_of_normalize hd
    · exact wildcardOf_ne_empty p
  rw [nameList?, hcandidates, hfold]
  rfl

end Normalized

end Domain

theorem mem_addName {acc : List String} {n m : String} (h : m ∈ addName acc n) :
    m ∈ acc ∨ m = n := by
  rw [addName] at h
  split at h
  · exact .inl h
  · simpa using h

/-- There are names if the first one is not blank. -/
theorem exists_nameList? (others : List String) (wildcard : Bool) (h : Text.trim primary ≠ "") :
    ∃ names, nameList? primary others wildcard = some names := by
  have hkept : ∀ (names acc : List String), acc ≠ [] → names.foldl addName acc ≠ [] := by
    intro names
    induction names with
    | nil => exact fun acc hacc => hacc
    | cons n names ih =>
      refine fun acc hacc => ih _ ?_
      rw [addName]
      split
      · exact hacc
      · simp
  have hfirst : addName [] (Text.trim primary) = [Text.trim primary] := by
    simp [addName, h]
  have hne : (nameCandidates primary others wildcard).foldl addName [] ≠ [] := by
    rw [nameCandidates, List.cons_append, List.foldl_cons, hfirst]
    exact hkept _ _ (List.cons_ne_nil _ _)
  rw [nameList?]
  split
  · rename_i hnil
    exact absurd hnil hne
  · exact ⟨_, rfl⟩

/-- The names of a list are among those that were considered. -/
theorem mem_nameList? {list : List String} {n : String}
    (h : nameList? primary others wildcard = some list) (hn : n ∈ list) :
    n ∈ nameCandidates primary others wildcard := by
  have hfold : ∀ (names acc : List String) (m : String), m ∈ names.foldl addName acc →
      m ∈ acc ∨ m ∈ names := by
    intro names
    induction names with
    | nil => exact fun acc m hm => .inl hm
    | cons x names ih =>
      intro acc m hm
      obtain hm | hm := ih _ m hm
      · obtain hm | rfl := mem_addName hm
        · exact .inl hm
        · exact .inr List.mem_cons_self
      · exact .inr (List.mem_cons_of_mem _ hm)
  rw [nameList?] at h
  split at h
  · cases h
  · cases h
    exact (hfold _ _ n hn).resolve_left List.not_mem_nil

end CertSteward
