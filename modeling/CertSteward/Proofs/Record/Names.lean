import CertSteward.Proofs.Domain.NameList
import CertSteward.Record.Record

/-!
# The names of a new record

A new record holds its domains normalized, each once and without the wildcard of the primary domain,
which is a flag. The list of its names puts them together again.

## Main results

* `CertificateRecord.make_eq_ok` — what a new record holds
* `CertificateRecord.names?_of_make` — the list of its names
-/

namespace CertSteward

namespace CertificateRecord

/-! ### Domains -/

variable {d n primary : String} {others ns : List String} {wildcard : Bool}

theorem domain_eq_ok_iff {allowWildcard : Bool} :
    domain d allowWildcard = .ok n ↔ Domain.normalize d allowWildcard = .ok n := by
  rw [domain]
  cases Domain.normalize d allowWildcard <;> simp [Except.mapError]

/-- Domains are taken in one by one. -/
theorem mapM_domain_eq_ok_iff : others.mapM (fun name => domain name true) = .ok ns ↔
    List.Forall₂ (fun d n => Domain.normalize d true = .ok n) others ns := by
  constructor
  · intro h
    induction others generalizing ns with
    | nil =>
      cases h
      exact .nil
    | cons d others ih =>
      rw [List.mapM_cons] at h
      cases hd : domain d true with
      | error e =>
        rw [hd] at h
        cases h
      | ok n =>
        cases hrest : others.mapM fun name => domain name true with
        | error e =>
          rw [hd, hrest] at h
          cases h
        | ok rest =>
          rw [hd, hrest] at h
          cases h
          exact .cons (domain_eq_ok_iff.mp hd) (ih hrest)
  · intro h
    induction h with
    | nil => rfl
    | cons hd _ ih =>
      rw [List.mapM_cons, domain_eq_ok_iff.mpr hd, ih]
      rfl

theorem exists_of_normalized
    (h : List.Forall₂ (fun d n => Domain.normalize d true = .ok n) others ns) (hn : n ∈ ns) :
    ∃ d, Domain.normalize d true = .ok n := by
  induction h with
  | nil => cases hn
  | cons hd _ ih => exact (List.mem_cons.mp hn).elim (fun heq => ⟨_, heq ▸ hd⟩) ih

/-- The domains that are taken in are all different from each other and from what is there. -/
theorem foldl_addDomain (acc : List String) (ns : List String) :
    ns.foldl (addDomain primary) (acc, wildcard) =
      (acc ++
          (ns.filter fun n => (n ≠ primary ∧ n ≠ Domain.wildcardOf primary) ∧ n ∉ acc).eraseDups,
        wildcard || decide (Domain.wildcardOf primary ∈ ns)) := by
  induction ns generalizing acc wildcard with
  | nil => simp
  | cons n ns ih =>
    rw [List.foldl_cons, addDomain]
    split
    · rename_i hwild
      subst hwild
      rw [ih]
      simp
    · rename_i hwild
      split
      · rename_i hthere
        have hdrop : ¬ ((n ≠ primary ∧ n ≠ Domain.wildcardOf primary) ∧ n ∉ acc) := by tauto
        rw [ih, List.filter_cons_of_neg (by simpa using hdrop)]
        simp [Ne.symm hwild]
      · rename_i hnew
        have hkeep : (n ≠ primary ∧ n ≠ Domain.wildcardOf primary) ∧ n ∉ acc := by tauto
        rw [ih, List.filter_cons_of_pos (by simpa using hkeep), List.eraseDups_cons,
          List.filter_filter, List.append_assoc, List.singleton_append]
        congr 3
        · congr 2
          funext m
          simp only [List.mem_append, List.mem_singleton, Bool.beq_eq_decide_eq]
          grind
        · simp [Ne.symm hwild]

/-- What a new record holds. -/
theorem make_eq_ok {id domainId : String} {autoRenew : Bool} {now : Instant}
    {r : CertificateRecord}
    (h : make id domainId primary others wildcard autoRenew now = .ok r) :
    ∃ p ns, Domain.normalize primary false = .ok p ∧
      List.Forall₂ (fun d n => Domain.normalize d true = .ok n) others ns ∧
      r = { id, domainId, primaryDomain := p
            sanDomains := (ns.filter fun n => n ≠ p ∧ n ≠ Domain.wildcardOf p).eraseDups
            wildcard := wildcard || decide (Domain.wildcardOf p ∈ ns), autoRenew
            createdAt := now, updatedAt := now } := by
  unfold make at h
  cases hp : domain primary false with
  | error e => simp [hp, bind, Except.bind] at h
  | ok p =>
    cases hns : others.mapM fun name => domain name true with
    | error e => simp [hp, hns, bind, Except.bind] at h
    | ok ns =>
      simp only [hp, hns, bind, Except.bind, pure, Except.pure, Except.ok.injEq,
        foldl_addDomain, List.nil_append, List.not_mem_nil, not_false_eq_true, and_true] at h
      exact ⟨p, ns, domain_eq_ok_iff.mp hp, mapM_domain_eq_ok_iff.mp hns, h.symm⟩

/-- **The names of a new record**: the primary domain, the further ones in the order in which they
were given, each once, and the wildcard of the primary domain at the end if it was asked for in
either way. No two of them are the same up to case. -/
theorem names?_of_make {id domainId : String} {autoRenew : Bool} {now : Instant}
    {r : CertificateRecord}
    (h : make id domainId primary others wildcard autoRenew now = .ok r) :
    ∃ p ns, Domain.normalize primary false = .ok p ∧
      List.Forall₂ (fun d n => Domain.normalize d true = .ok n) others ns ∧
      r.names? = some (Domain.inOrder p ns wildcard) ∧
      (Domain.inOrder p ns wildcard).Pairwise (fun a b => Text.sameIgnoringCase a b = false) ∧
      (r.wildcard = true ↔ Domain.wildcardOf p ∈ Domain.inOrder p ns wildcard) := by
  obtain ⟨p, ns, hp, hns, rfl⟩ := make_eq_ok h
  have hall : ∀ n ∈ ns, ∃ d, Domain.normalize d true = .ok n := fun n => exists_of_normalized hns
  refine ⟨p, ns, hp, hns, Domain.nameList?_eq_inOrder hp hall, Domain.pairwise_inOrder hp hall, ?_⟩
  rw [Domain.wildcardOf_mem_inOrder]
  simp

end CertificateRecord

end CertSteward
