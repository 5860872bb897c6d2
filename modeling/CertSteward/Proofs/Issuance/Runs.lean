import CertSteward.Proofs.Dns.Provisioning
import CertSteward.Proofs.Issuance.Conclusion
import CertSteward.Proofs.Run.Rules
import CertSteward.Proofs.Run.Strides

/-!
# Runs beside each other

Runs go on at the same time, with the jobs that they start: each run keeps to its protocol, and each
job goes on its errand. So of every strand it is known what it may ask for next and what it came
to.

## Main definitions

* `Contending` — the weaves of runs that go on at the same time
* `issuanceRules` — what runs and their jobs keep to
* `Weave.journal`, `Weave.errand` — how far a strand is

## Main results

* `Contending.holds` — all strands keep to the rules
* `Contending.kinds` — which strands there are
-/

namespace CertSteward

/-- What a main program of these weaves comes to. -/
abbrev Issued := Except IssuanceError IssuedCertificate

/-- A weave that runs for these requests, all at the same time, can lead to. -/
def Contending (p : RenewalPractice) (requests : List (IssuanceRequest × LockMode))
    (w : Weave Issued) : Prop :=
  Weave.Strides p.program
    (Weave.start (requests.map fun (r, mode) => issueCertificate p.issuance r mode)) w

/-- What a strand is to end with. -/
def issuanceEnds (p : IssuancePractice) : Option Job → Journal → Outcome ⊕ Issued → Prop
  | none, j, .inr x => j.Concluded p.countsDebt x
  | some job, j, .inl o => j.errand.EndsWith job o
  | _, _, _ => False

/-- What runs and their jobs keep to. -/
def issuanceRules (p : IssuancePractice) (requests : List (IssuanceRequest × LockMode)) :
    Rules Issued Journal where
  conduct run job :=
    { may := fun b j a => j.errand.May job b a ∧ (job = none → ∃ r mode,
        requests[run]? = some (r, mode) ∧ j.standing.May r b a)
      next := Journal.note p.settings.callTimeout }
  start job := { errand := .start job }
  ends _ job _ := issuanceEnds p job

namespace Weave

variable {β : Type}

/-- The job of a strand. -/
def job? (w : Weave β) (i : Nat) : Option Job := w.strands[i]?.bind (·.job)

/-- How far a strand is, as its requests tell. -/
def journal (limit : Duration) (w : Weave β) (i : Nat) : Journal :=
  (w.path i).foldl (fun j h => j.note limit h.1 h.2) { errand := .start (w.job? i) }

/-- How far a strand is with slots. -/
def errand (w : Weave β) (i : Nat) : Errand :=
  (w.path i).foldl (fun e h => e.next h.1 h.2) (.start (w.job? i))

variable {limit : Duration} {w u : Weave β} {i : Nat} {s : Strand β}

theorem job?_of_here (here : w.strands[i]? = some s) : w.job? i = s.job := by
  rw [job?, here]
  rfl

/-- The errand is a part of the journal. -/
@[simp] theorem errand_journal : (w.journal limit i).errand = w.errand i := by
  have h : ∀ (path : List Happening) (j : Journal),
      (path.foldl (fun j h => j.note limit h.1 h.2) j).errand =
        path.foldl (fun e h => e.next h.1 h.2) j.errand := by
    intro path
    induction path with
    | nil => exact fun _ => rfl
    | cons h path ih => exact fun j => ih (j.note limit h.1 h.2)
  exact h (w.path i) { errand := .start (w.job? i) }

theorem journal_congr (hpath : u.path i = w.path i) (hjob : u.job? i = w.job? i) :
    u.journal limit i = w.journal limit i := by
  rw [journal, journal, hpath, hjob]

theorem errand_congr (hpath : u.path i = w.path i) (hjob : u.job? i = w.job? i) :
    u.errand i = w.errand i := by
  rw [errand, errand, hpath, hjob]

/-- Nobody has been at a slot before the first step. -/
theorem errand_start {mains : List (Steward β)} : (start mains).errand i = .blank := by
  have hjob : (start mains).job? i = none := by
    rw [job?]
    cases hs : (start mains).strands[i]? with
    | none => rfl
    | some s =>
      obtain ⟨p, -, rfl⟩ := start_here hs
      rfl
  rw [errand, hjob]
  rfl

/-- A request takes a strand further. -/
theorem journal_append {h : Happening} (hpath : u.path i = w.path i ++ [h])
    (hjob : u.job? i = w.job? i) :
    u.journal limit i = (w.journal limit i).note limit h.1 h.2 := by
  rw [journal, journal, hpath, hjob, List.foldl_append]
  rfl

theorem errand_append {h : Happening} (hpath : u.path i = w.path i ++ [h])
    (hjob : u.job? i = w.job? i) : u.errand i = (w.errand i).next h.1 h.2 := by
  rw [errand, errand, hpath, hjob, List.foldl_append]
  rfl

end Weave

namespace Contending

variable {p : RenewalPractice} {requests : List (IssuanceRequest × LockMode)}

/-- A job of the DNS service keeps to the rules. -/
theorem admits {run : Nat} {b : Bool} {j : Job} (h : j.IsErrand b) :
    (issuanceRules p.issuance requests).Admits p.program run b j := by
  refine Conduct.keeps_map.mpr ?_
  let begun : Journal := { errand := .start (some j) }
  refine Conduct.Keeps.comap (f := Journal.errand) (t := begun) ?_ ?_ (keeps_program h)
  · exact fun _ _ _ hmay => ⟨hmay, nofun⟩
  · exact fun _ _ _ => rfl

theorem covers : (issuanceRules p.issuance requests).Covers p.program where
  spawn := by
    rintro run job b t j ⟨⟨c, name, value, -, rfl⟩, -⟩
    exact admits rfl
  divide := by
    rintro run job b t jobs ⟨⟨-, rfl⟩, hmain⟩ j hj
    obtain ⟨r, mode, -, -, hsend⟩ := hmain rfl
    have hj := hsend j hj
    cases j with
    | provision => exact admits trivial
    | propagate => exact admits trivial
    | deprovision h => exact admits hj.1
    | _ => exact hj.elim

variable {w u : Weave Issued} {i : Nat} {s : Strand Issued}

/-- A run keeps to the rules from its beginning on. -/
theorem keeps_main {r : IssuanceRequest} {mode : LockMode} (hr : requests[i]? = some (r, mode)) :
    ((issuanceRules p.issuance requests).conduct i none).Keeps
      ((issuanceRules p.issuance requests).ends i none) false
      ((issuanceRules p.issuance requests).start none)
      (.inr <$> issueCertificate p.issuance r mode) := by
  refine Conduct.keeps_map.mpr ?_
  have hkeeps := (keeps_issueCertificate p.issuance r mode).mono
    (R := fun _ j x => j.Concluded p.issuance.countsDebt x) fun _ _ _ h => h.2
  refine Conduct.Keeps.comap (C := protocol p.issuance.settings.callTimeout r)
    (f := fun j => j) ?_ (fun _ _ _ => rfl) hkeeps
  exact fun _ _ _ hmay => ⟨hmay.2, fun _ => ⟨r, mode, hr, hmay.1⟩⟩

/-- All strands keep to the rules. -/
theorem holds (h : Contending p requests w) : (issuanceRules p.issuance requests).Holds w := by
  refine Rules.holds_of_leads (fun i q hq => ?_) covers (fun _ _ => Weave.Stride.turn) h
  rw [List.getElem?_map, Option.map_eq_some_iff] at hq
  obtain ⟨⟨r, mode⟩, hr, rfl⟩ := hq
  exact keeps_main hr

/-- A strand keeps to the rules from now on. -/
theorem keeps (h : Contending p requests w) (here : w.strands[i]? = some s) :
    ((issuanceRules p.issuance requests).conduct s.run s.job).Keeps
      (fun _ => issuanceEnds p.issuance s.job) s.isWatching
      (w.journal p.issuance.settings.callTimeout i) s.program := by
  have hgov := h.holds i s here
  rw [Weave.journal, Weave.job?_of_here here]
  exact hgov

/-- What a strand asks for belongs to its errand. -/
theorem may (h : Contending p requests w) (here : w.strands[i]? = some s) {a : Act}
    {next : a.Answer → Steward (Outcome ⊕ Issued)} (asks : s.program = .ask a next) :
    (w.errand i).May s.job s.isWatching a := by
  have hkeeps := h.keeps here
  rw [asks] at hkeeps
  have hmay := hkeeps.1.1
  rw [Weave.errand_journal] at hmay
  exact hmay

/-- What a run asks for belongs to the protocol. -/
theorem mayAsk (h : Contending p requests w) (here : w.strands[i]? = some s) (hmain : s.job = none)
    {a : Act} {next : a.Answer → Steward (Outcome ⊕ Issued)} (asks : s.program = .ask a next) :
    ∃ r mode, requests[s.run]? = some (r, mode) ∧
      (w.journal p.issuance.settings.callTimeout i).standing.May r s.isWatching a := by
  have hkeeps := h.keeps here
  rw [asks] at hkeeps
  exact hkeeps.1.2 hmain

/-- What a strand has ended with belongs to its errand or its run. -/
theorem ends (h : Contending p requests w) (here : w.strands[i]? = some s) {x : Outcome ⊕ Issued}
    (done : s.program = .done x) :
    issuanceEnds p.issuance s.job (w.journal p.issuance.settings.callTimeout i) x := by
  have hkeeps := h.keeps here
  rw [done] at hkeeps
  exact hkeeps

end Contending

/-! ### Which strands there are -/

/-- Who may do a job of a run: records are made by tasks, everything else by parts of the run. -/
def Job.MayBelong (run : Nat) (owner : Option Nat) : Job → Prop
  | .createRecord .. => owner = none
  | .provision .. | .deprovision _ | .propagate .. => owner = some run
  | _ => False

/-- Strands are runs, which are their own, or do jobs of runs. -/
structure Weave.Kinds (w : Weave Issued) : Prop where
  main : ∀ (i : Nat) (s : Strand Issued), w.strands[i]? = some s → s.job = none →
    s.run = i ∧ s.owner = none
  job : ∀ (i : Nat) (s : Strand Issued) (j : Job), w.strands[i]? = some s → s.job = some j →
    j.MayBelong s.run s.owner
  run : ∀ (i : Nat) (s : Strand Issued), w.strands[i]? = some s →
    ∃ m : Strand Issued, w.strands[s.run]? = some m ∧ m.job = none

/-- A part belongs to the run that waits for it. -/
theorem Weave.Kinds.run_of_owner {w : Weave Issued} {i j : Nat} {t : Strand Issued} (hw : w.Kinds)
    (here : w.strands[j]? = some t) (howner : t.owner = some i) : t.run = i := by
  cases hjob : t.job with
  | none =>
    rw [(hw.main j t here hjob).2] at howner
    cases howner
  | some job =>
    have hbelongs := hw.job j t job here hjob
    rw [howner] at hbelongs
    cases job with
    | provision | deprovision | propagate => exact (Option.some.inj hbelongs).symm
    | createRecord => cases hbelongs
    | _ => exact hbelongs.elim

namespace Contending

variable {p : RenewalPractice} {requests : List (IssuanceRequest × LockMode)}
variable {w u : Weave Issued} {i : Nat} {s : Strand Issued}

theorem kinds_step (h : Contending p requests w) (hw : w.Kinds) (step : Weave.Stride p.program w u) :
    u.Kinds where
  main i t ht hmain := by
    obtain ⟨hrun, howner, -⟩ :=
      Weave.Leads.main (.step h step) (fun _ _ => Weave.Stride.turn) ht hmain
    exact ⟨hrun, howner⟩
  job i t j ht hjob := by
    cases step.turn.origin ht with
    | old here job owner run =>
      rw [run, owner]
      exact hw.job i _ j here (job ▸ hjob)
    | @part k s jobs next j' here asks mem _ _ job owner run =>
      obtain rfl : j' = j := Option.some.inj (job.symm.trans hjob)
      -- only runs wait for jobs
      have hmain : s.job = none := (h.may here asks).2
      obtain ⟨hrun, -⟩ := hw.main k s here hmain
      obtain ⟨r, mode, -, -, hsend⟩ := h.mayAsk here hmain asks
      have hsend := hsend j' mem
      rw [owner, run, hrun]
      cases j' with
      | provision | deprovision | propagate => rfl
      | _ => exact hsend.elim
    | started here asks _ _ job owner run =>
      obtain ⟨c, name, value, -, rfl⟩ := h.may here asks
      cases job.symm.trans hjob
      exact owner
  run i t ht := by
    have hrun : ∃ (k : Nat) (s : Strand Issued), w.strands[k]? = some s ∧ t.run = s.run := by
      cases step.turn.origin ht with
      | old here _ _ run => exact ⟨_, _, here, run⟩
      | part here _ _ _ _ _ _ run => exact ⟨_, _, here, run⟩
      | started here _ _ _ _ _ run => exact ⟨_, _, here, run⟩
    obtain ⟨k, s, here, hrun⟩ := hrun
    obtain ⟨m, hm, hmain⟩ := hw.run k s here
    obtain ⟨m', hm', hjob, -⟩ := step.turn.same hm
    exact ⟨m', hrun ▸ hm', hjob.trans hmain⟩

/-- **Strands are runs or do jobs of runs.** -/
theorem kinds (h : Contending p requests w) : w.Kinds := by
  unfold Contending at h
  induction h with
  | refl =>
    refine ⟨fun i s hs _ => ?_, fun i s j hs hjob => ?_, fun i s hs => ?_⟩
    · obtain ⟨q, -, rfl⟩ := Weave.start_here hs
      exact ⟨rfl, rfl⟩
    · obtain ⟨q, -, rfl⟩ := Weave.start_here hs
      cases hjob
    · obtain ⟨q, -, rfl⟩ := Weave.start_here hs
      exact ⟨_, hs, rfl⟩
  | step reach step ih => exact kinds_step reach ih step

end Contending

end CertSteward
