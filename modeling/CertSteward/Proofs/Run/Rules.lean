import CertSteward.Proofs.Run.Weave

/-!
# Rules for strands

Programs that keep to a conduct keep to it in every weave, whatever else goes on there. A set of
*rules* has a conduct for each main program and for each job that belongs to it. If main programs
keep to the rules, and the jobs that may be started do, then all strands do at all times.

## Main definitions

* `Rules`, `Rules.state`, `Rules.Holds`

## Main results

* `Rules.holds_of_leads` — strands keep to the rules
* `Rules.asked_of_leads` — what strands asked for was allowed
-/

namespace CertSteward

/-- Rules for the strands of a weave: a conduct for each main program and each job that belongs to
it, with the state in which a strand begins and what is asked of its end. -/
structure Rules (β σ : Type) where
  conduct : Nat → Option Job → Conduct σ
  start : Option Job → σ
  ends : Nat → Option Job → Bool → σ → Outcome ⊕ β → Prop

namespace Rules

variable {β σ : Type} (R : Rules β σ) {program : Job → Steward Outcome} {w u : Weave β}

/-- The state of a strand, as its requests tell it. -/
def state (w : Weave β) (i run : Nat) (job : Option Job) : σ :=
  (w.path i).foldl (fun t e => (R.conduct run job).next t e.1 e.2) (R.start job)

/-- A strand keeps to the rules from now on. -/
def Governs (w : Weave β) (i : Nat) (s : Strand β) : Prop :=
  (R.conduct s.run s.job).Keeps (R.ends s.run s.job) s.isWatching (R.state w i s.run s.job)
    s.program

/-- All strands keep to the rules from now on. -/
def Holds (w : Weave β) : Prop := ∀ i s, w.strands[i]? = some s → R.Governs w i s

/-- A job keeps to the rules from its beginning on. -/
def Admits (program : Job → Steward Outcome) (run : Nat) (b : Bool) (j : Job) : Prop :=
  (R.conduct run (some j)).Keeps (R.ends run (some j)) b (R.start (some j)) (.inl <$> program j)

/-- Jobs that may be started keep to the rules. -/
structure Covers (program : Job → Steward Outcome) : Prop where
  spawn : ∀ {run job b t j}, (R.conduct run job).may b t (.spawn j) →
    R.Admits program run false j
  divide : ∀ {run job b t jobs}, (R.conduct run job).may b t (.wait (.all jobs)) →
    ∀ j ∈ jobs, R.Admits program run b j

variable {R} {i run : Nat} {job : Option Job}

theorem state_congr (h : u.path i = w.path i) : R.state u i run job = R.state w i run job := by
  rw [state, state, h]

theorem state_eq_start (hw : w.Numbered) (hi : w.strands.length ≤ i) :
    R.state w i run job = R.start job := by
  rw [state, hw.path_eq_nil hi, List.foldl_nil]

theorem state_resume_self {s : Strand β} {a : Act} {next : a.Answer → Steward (Outcome ⊕ β)}
    {answer : a.Answer} : R.state (w.resume i s a next answer) i run job =
      (R.conduct run job).next (R.state w i run job) a answer := by
  rw [state, state, Weave.path_resume_self, List.foldl_append]
  rfl

/-- A strand that begins with a job keeps to the rules if the job does. -/
theorem Admits.governs {s : Strand β} {owner : Option Nat} {j : Job}
    (h : R.Admits program s.run (owner.isSome && s.isWatching) j) (hw : w.Numbered)
    (hi : w.strands.length ≤ i) : R.Governs w i (s.ofJob program owner j) := by
  rw [Governs, state_eq_start hw hi]
  exact h

theorem governs_congr {s : Strand β} (h : u.path i = w.path i) (hw : R.Governs w i s) :
    R.Governs u i s := by
  rw [Governs, state_congr h]
  exact hw

theorem Holds.turn (hR : R.Covers program) (hn : w.Numbered) (hd : w.Divided) (hw : R.Holds w)
    (h : Weave.Turn program w u) : R.Holds u := by
  intro j t ht
  cases h with
  | stage here hs hl _ =>
    rw [hs] at ht
    obtain ⟨rfl, rfl⟩ | ⟨-, ht⟩ := Weave.getElem?_set_cases ht
    · have hgov := hw _ _ here
      exact governs_congr (Weave.path_congr hl j) hgov
    · exact governs_congr (Weave.path_congr hl j) (hw j t ht)
  | @divide i s jobs next here asks hs hl =>
    rw [hs] at ht
    refine governs_congr (w := w) (Weave.path_congr hl j) ?_
    have hmay := hw _ _ here
    obtain ⟨rfl, rfl⟩ | ⟨-, ht⟩ := Weave.getElem?_set_cases ht
    · exact hmay
    · obtain ht | ⟨hlen, hmem⟩ := Weave.getElem?_append_cases ht
      · exact hw j t ht
      · obtain ⟨job, hjob, rfl⟩ := List.mem_map.mp hmem
        rw [Governs, asks] at hmay
        exact Admits.governs (hR.divide hmay.1 job hjob) hn hlen
  | @answer i s a next answer v here asks resumes possible strands log =>
    subst resumes
    have hkeep := hw _ _ here
    rw [Governs, asks] at hkeep
    obtain ⟨rfl, rfl⟩ | ⟨hne, ht'⟩ := Weave.getElem?_set_cases ht
    · have hstate : R.state v j s.run s.job = R.state w j s.run s.job :=
        state_congr (Weave.path_congr log _)
      have hkeep := hkeep.2 answer (possible hd)
      rw [← hstate, ← state_resume_self] at hkeep
      exact hkeep
    · have hpath : (v.resume i s a next answer).path j = w.path j :=
        (Weave.path_resume_of_ne hne).trans (Weave.path_congr log j)
      refine governs_congr hpath ?_
      obtain hs | ⟨job, rfl, hs⟩ := strands
      · rw [hs] at ht'
        exact hw j t ht'
      · rw [hs] at ht'
        obtain ht' | ⟨hlen, hmem⟩ := Weave.getElem?_append_cases ht'
        · exact hw j t ht'
        · rw [List.mem_singleton] at hmem
          subst hmem
          exact Admits.governs (hR.spawn hkeep.1) hn hlen

theorem holds_start {mains : List (Steward β)}
    (h : ∀ i p, mains[i]? = some p →
      (R.conduct i none).Keeps (R.ends i none) false (R.start none) (.inr <$> p)) :
    R.Holds (Weave.start mains) := by
  intro i s hs
  obtain ⟨p, hp, rfl⟩ := Weave.start_here hs
  exact h i p hp

/-- **Strands keep to the rules.** If main programs and the jobs that may be started keep to them,
then so do all strands of every weave. -/
theorem holds_of_leads {S : Weave β → Weave β → Prop} {mains : List (Steward β)}
    (hmains : ∀ i p, mains[i]? = some p →
      (R.conduct i none).Keeps (R.ends i none) false (R.start none) (.inr <$> p))
    (hjobs : R.Covers program) (hS : ∀ v u, S v u → Weave.Turn program v u)
    (h : Weave.Leads S (Weave.start mains) w) : R.Holds w := by
  induction h with
  | refl => exact holds_start hmains
  | step hlead hstep ih =>
    exact ih.turn hjobs (hlead.numbered hS) (hlead.divided hS) (hS _ _ hstep)

theorem state_append {e : Event} (hlog : u.log = w.log ++ [e]) :
    R.state u i run job = if e.strand = i then
      (R.conduct run job).next (R.state w i run job) e.act e.answer else R.state w i run job := by
  rw [state, Weave.path_append hlog]
  split
  · rw [List.foldl_append]
    rfl
  · rfl

/-- **What was asked for.** What may be said of a request when it is made, and stays so, can be said
of every request that was made. -/
theorem asked_of_leads {S : Weave β → Weave β → Prop} {mains : List (Steward β)}
    {Q : Option Job → σ → Act → Prop}
    (may : ∀ run job b t a, (R.conduct run job).may b t a →
      ∀ answer, Q job ((R.conduct run job).next t a answer) a)
    (stays : ∀ run job t a a' answer, Q job t a → Q job ((R.conduct run job).next t a' answer) a)
    (hS : ∀ v u, S v u → Weave.Turn program v u)
    (holds : ∀ v, Weave.Leads S (Weave.start mains) v → R.Holds v)
    (h : Weave.Leads S (Weave.start mains) w) {e : Event} (he : e ∈ w.log) :
    ∃ t, w.strands[e.strand]? = some t ∧ t.run = e.run ∧
      Q t.job (R.state w e.strand t.run t.job) e.act := by
  induction h with
  | refl => cases he
  | @step w u hlead hstep ih =>
    have hturn := hS _ _ hstep
    obtain hlog | ⟨e', s, next, hlog, here, hrun, asks⟩ := hturn.log_cases
    · obtain ⟨t, ht, htrun, hQ⟩ := ih (hlog ▸ he)
      obtain ⟨t', ht', hjob', -, hrun'⟩ := hturn.same ht
      rw [← state_congr (Weave.path_congr hlog e.strand), ← hjob', ← hrun'] at hQ
      exact ⟨t', ht', hrun'.trans htrun, hQ⟩
    rw [hlog, List.mem_append, List.mem_singleton] at he
    obtain he | rfl := he
    · obtain ⟨t, ht, htrun, hQ⟩ := ih he
      obtain ⟨t', ht', hjob', -, hrun'⟩ := hturn.same ht
      refine ⟨t', ht', hrun'.trans htrun, ?_⟩
      rw [hjob', hrun', state_append hlog]
      split
      · exact stays _ _ _ _ _ _ hQ
      · exact hQ
    · obtain ⟨t', ht', hjob', -, hrun'⟩ := hturn.same here
      refine ⟨t', ht', hrun'.trans hrun, ?_⟩
      have hgov := holds _ hlead _ s here
      rw [Governs, asks] at hgov
      rw [hjob', hrun', state_append hlog, if_pos rfl]
      exact may _ _ _ _ _ hgov.1 _

end Rules

end CertSteward
