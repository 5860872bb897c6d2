import CertSteward.Proofs.Issuance.Requests

/-!
# How a run comes to its domain and leaves it

A run looks its domain up, holds it or gives up, does its work, and lets the domain go. How far it
is can be told from its requests, as a *tenure*. All that it asks of the authority, of the DNS
service and of its jobs it asks while it holds its domain; before that it only prepares, and after
that it only tidies up.

## Main definitions

* `Tenure`, `Tenure.next`, `Tenure.May` — how far a run is with its domain, and what it may ask for
* `Tenure.Allows` — what of that is asked where domains and the authority are concerned
* `Act.IsPreparation` — requests that need no domain
* `tenancy` — the conduct of a run with respect to its domain

## Main results

* `keeps_tenancy` — runs keep to it
-/

namespace CertSteward

/-- How far a run is with its domain. -/
inductive Tenure
  | before
  /-- It uses the cell of its domain and does not hold it yet. -/
  | found (c : Nat)
  /-- It holds its domain. -/
  | inside (c : Nat)
  /-- It uses the cell but does not hold it any more, or never did. -/
  | out (c : Nat)
  | after
deriving DecidableEq

/-- Whether a request needs no domain. -/
def Act.IsPreparation : Act → Prop
  | .freshKey _ | .watch | .unwatch => True
  | _ => False

/-- The domain that is held for a request. -/
def IssuanceRequest.HasDomain (r : IssuanceRequest) (k : String) : Prop :=
  ∃ normal, r.normal = .ok normal ∧ k = normal.primary

/-- Whether a request has nothing to do with domains. -/
def Act.LeavesDomains : Act → Prop
  | .locks _ | .wait (.lock _) => False
  | _ => True

namespace Tenure

/-- The cell that it uses. -/
def cell? : Tenure → Option Nat
  | before | after => none
  | found c | inside c | out c => some c

/-- The cell that it knows that it holds. -/
def holds? : Tenure → Option Nat
  | inside c => some c
  | _ => none

/-- Holds the cell, or gives up. -/
def enter (got : Bool) : Tenure → Tenure
  | found c => if got then inside c else out c
  | t => t

/-- Lets the cell go. -/
def leave : Tenure → Tenure
  | inside c => out c
  | t => t

/-- Uses the cell no more. -/
def release : Tenure → Tenure
  | out _ => after
  | t => t

/-- The tenure after an answer. -/
def next (t : Tenure) : (a : Act) → a.Answer → Tenure
  | .locks (.obtain _), c => found c
  | .locks (.tryEnter _), got => t.enter got
  | .wait (.lock _), o => t.enter o.isSome
  | .locks (.leave _), _ => t.leave
  | .locks (.release _), _ => t.release
  | _, _ => t

/-- The requests that may come next in a run for `r`. -/
def May (r : IssuanceRequest) (t : Tenure) : Act → Prop
  | .locks (.obtain k) => t = before ∧ ∃ normal, r.normal = .ok normal ∧ k = normal.primary
  | .locks (.tryEnter c) | .wait (.lock c) => t = found c
  | .locks (.leave c) => t = inside c
  | .locks (.release c) => t = out c
  | .locks (.tidy _) => t = after
  | .locks _ => False
  | .freshKey _ | .watch | .unwatch => True
  | _ => ∃ c, t = inside c

/-- What may come next of the requests that have to do with domains or with the authority, for who
may look up the domains in `K`. -/
def Allows (K : String → Prop) (t : Tenure) : Act → Prop
  | .locks (.obtain k) => t = before ∧ K k
  | .locks (.tryEnter c) | .wait (.lock c) => t = found c
  | .locks (.leave c) => t = inside c
  | .locks (.release c) => t = out c
  | .locks (.tidy _) => t = after
  | .locks _ => False
  | .authority _ => ∃ c, t = inside c
  | _ => True

/-- A run that has ended is done with its domain. -/
def IsOver (t : Tenure) : Prop := t.cell? = none

theorem next_of_leavesDomains {t : Tenure} {a : Act} {answer : a.Answer} (h : a.LeavesDomains) :
    t.next a answer = t := by
  cases a with
  | locks => exact h.elim
  | wait v =>
    cases v with
    | lock => exact h.elim
    | _ => rfl
  | _ => rfl

/-- Who asks neither about domains nor the authority is free to. -/
theorem allows_of_leavesDomains {K : String → Prop} {t : Tenure} {a : Act} (h : a.LeavesDomains)
    (authority : ∀ q, a ≠ .authority q) : t.Allows K a := by
  cases a with
  | locks => exact h.elim
  | authority q => exact absurd rfl (authority q)
  | wait v =>
    cases v with
    | lock => exact h.elim
    | _ => trivial
  | _ => trivial

theorem Allows.mono {K L : String → Prop} {t : Tenure} {a : Act} (h : t.Allows K a)
    (hKL : ∀ k, K k → L k) : t.Allows L a := by
  cases a with
  | locks b =>
    cases b with
    | obtain k => exact ⟨h.1, hKL k h.2⟩
    | _ => exact h
  | wait v => cases v <;> exact h
  | _ => exact h

theorem May.allows {r : IssuanceRequest} {t : Tenure} {a : Act} (h : t.May r a) :
    t.Allows r.HasDomain a := by
  cases a with
  | locks b =>
    cases b with
    | obtain k =>
      obtain ⟨ht, normal, hnormal, hk⟩ := h
      exact ⟨ht, normal, hnormal, hk⟩
    | _ => exact h
  | authority q => exact h
  | wait v =>
    cases v with
    | lock c => exact h
    | _ => trivial
  | _ => trivial

/-- Whatever has to do with the authority or with jobs is asked inside. -/
theorem inside_of_may {r : IssuanceRequest} {t : Tenure} {a : Act} (may : t.May r a)
    (domains : a.LeavesDomains) (work : ¬ a.IsPreparation) : ∃ c, t = inside c := by
  cases a with
  | locks => exact domains.elim
  | freshKey | watch | unwatch => exact absurd trivial work
  | wait v =>
    cases v with
    | lock => exact domains.elim
    | _ => exact may
  | _ => exact may

/-- Who holds its domain may do its work. -/
theorem may_of_isHeldWork {r : IssuanceRequest} {c : Nat} {a : Act} (h : a.IsHeldWork) :
    (inside c).May r a := by
  cases a with
  | locks => exact h.elim
  | freshKey | watch | unwatch => trivial
  | wait v =>
    cases v with
    | lock => exact h.elim
    | _ => exact ⟨c, rfl⟩
  | _ => exact ⟨c, rfl⟩

end Tenure

theorem Act.IsHeldWork.leavesDomains {a : Act} (h : a.IsHeldWork) : a.LeavesDomains := by
  cases a with
  | locks => exact h.elim
  | wait v =>
    cases v with
    | lock => exact h.elim
    | _ => trivial
  | _ => trivial

/-- The conduct of a run for `r` with respect to its domain. -/
def tenancy (r : IssuanceRequest) : Conduct Tenure where
  may _ t a := t.May r a
  next t a answer := t.next a answer

/-! ### Runs keep to it -/

section Runs

variable {r normal : IssuanceRequest} {b : Bool}

/-- How the attempt to hold a domain ends. -/
def Tenure.Locked (t : Tenure) : Except IssuanceError Nat → Prop
  | .ok c => t = .inside c
  | .error _ => t.IsOver

theorem keeps_tenancy_lockDomain (hr : r.normal = .ok normal) (mode : LockMode) :
    (tenancy r).Keeps (fun _ t x => t.Locked x) b .before (lockDomain normal.primary mode) := by
  cases mode with
  | skip =>
    refine Conduct.keeps_bind.mpr (Conduct.keeps_bind.mpr (Conduct.keeps_perform.mpr
      ⟨⟨rfl, normal, hr, rfl⟩, fun c _ => ?_⟩))
    refine Conduct.keeps_bind.mpr (Conduct.keeps_perform.mpr ⟨rfl, ?_⟩)
    rintro (_ | _) -
    · exact Conduct.keeps_bind.mpr (Conduct.keeps_perform.mpr ⟨rfl, fun _ _ => rfl⟩)
    · exact rfl
  | wait =>
    refine Conduct.keeps_bind.mpr (Conduct.keeps_perform.mpr ⟨trivial, ?_⟩)
    rintro (_ | _) -
    · exact rfl
    refine Conduct.keeps_bind.mpr (Conduct.keeps_perform.mpr
      ⟨⟨rfl, normal, hr, rfl⟩, fun c _ => ?_⟩)
    refine Conduct.keeps_bind.mpr (Conduct.keeps_perform.mpr ⟨rfl, ?_⟩)
    rintro (_ | _) -
    · refine Conduct.keeps_bind.mpr (Conduct.keeps_perform.mpr ⟨trivial, fun _ _ => ?_⟩)
      exact Conduct.keeps_bind.mpr (Conduct.keeps_perform.mpr ⟨rfl, fun _ _ => rfl⟩)
    · exact Conduct.keeps_bind.mpr (Conduct.keeps_perform.mpr ⟨trivial, fun _ _ => rfl⟩)

theorem keeps_tenancy_unlockDomain (domain : String) (c : Nat) :
    (tenancy r).Keeps (fun _ t _ => t.IsOver) b (.inside c) (unlockDomain domain c) := by
  refine Conduct.keeps_bind.mpr (Conduct.keeps_perform.mpr ⟨rfl, fun _ _ => ?_⟩)
  refine Conduct.keeps_bind.mpr (Conduct.keeps_perform.mpr ⟨rfl, fun _ _ => ?_⟩)
  exact Conduct.keeps_perform.mpr ⟨rfl, fun _ _ => rfl⟩

/-- **Runs do their work while they hold their domain**, and end only after they have let it go. -/
theorem keeps_tenancy (p : IssuancePractice) (r : IssuanceRequest) (mode : LockMode) :
    (tenancy r).Keeps (fun _ t _ => t.IsOver) b .before (issueCertificate p r mode) := by
  unfold issueCertificate
  cases hnormal : r.normal with
  | error e => exact rfl
  | ok normal =>
    refine Conduct.keeps_bind.mpr (Conduct.keeps_perform.mpr ⟨trivial, fun key _ => ?_⟩)
    cases normal.signed key with
    | error e => exact rfl
    | ok parts =>
      obtain ⟨pair, names, request⟩ := parts
      refine Conduct.keeps_bind.mpr ((keeps_tenancy_lockDomain hnormal mode).mono ?_)
      rintro b t (e | c) hlocked
      · exact hlocked
      · obtain rfl : t = .inside c := hlocked
        have hheld := Conduct.Keeps.of_only_stay (C := tenancy r) (s := .inside c) (b := b)
          (only_issueHeld p normal.primary names request pair)
          (fun _ _ h => Tenure.may_of_isHeldWork h)
          fun _ _ h => Tenure.next_of_leavesDomains h.leavesDomains
        refine Conduct.keeps_bind.mpr (hheld.mono ?_)
        rintro b _ x rfl
        exact Conduct.keeps_bind.mpr (keeps_tenancy_unlockDomain normal.primary c)

end Runs

end CertSteward
