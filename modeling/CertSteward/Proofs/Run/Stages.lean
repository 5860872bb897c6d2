import CertSteward.Proofs.Run.Weave

/-!
# The stages of strands

What is left of a strand fits its stage: who waits has asked for something, who has not begun has
asked for nothing, and who has ended has a result. Once a strand has ended it stays as it is, and so
does what came of it.

## Main definitions

* `Weave.Settled` — strands are as their stages say

## Main results

* `Weave.Leads.settled` — who waits has asked for something, and who has ended has a result
* `Weave.Turn.ended`, `Weave.Turn.outcome?` — who has ended stays as he is
* `Weave.Turn.ends` — who ends has been at work
-/

namespace CertSteward

namespace Weave

variable {β : Type} {program : Job → Steward Outcome} {w u : Weave β} {i j : Nat} {s t : Strand β}

/-! ### Strands that have ended -/

theorem outcome?_congr (h : u.strands[j]? = w.strands[j]?) : u.outcome? j = w.outcome? j := by
  rw [outcome?, outcome?, h]

theorem result?_eq_some {x : Outcome ⊕ β} :
    t.result? = some x ↔ t.stage = .ended ∧ t.program = .done x := by
  unfold Strand.result?
  split
  · rename_i y hstage hprogram
    rw [hstage, hprogram]
    exact ⟨fun h => ⟨rfl, by rw [Option.some.inj h]⟩, fun h => by cases h.2; rfl⟩
  · rename_i hnone
    exact ⟨nofun, fun h => absurd h.2 (hnone x h.1)⟩

/-- A job that has come to something has ended with it. -/
theorem done_of_outcome? {o : Outcome} (h : w.outcome? j = some o) (ht : w.strands[j]? = some t) :
    t.stage = .ended ∧ t.program = .done (.inl o) := by
  rw [outcome?, ht, Option.bind_some, Option.bind_eq_some_iff] at h
  obtain ⟨x, hx, hleft⟩ := h
  cases x with
  | inr x => cases hleft
  | inl o' =>
    cases hleft
    exact result?_eq_some.mp hx

/-- A main program that has returned something has ended with it. -/
theorem done_of_returned {x : β} (h : w.returned j = some x) (ht : w.strands[j]? = some t) :
    t.stage = .ended ∧ t.program = .done (.inr x) := by
  rw [returned, ht, Option.bind_some, Option.bind_eq_some_iff] at h
  obtain ⟨y, hy, hright⟩ := h
  cases y with
  | inl o => cases hright
  | inr y =>
    cases hright
    exact result?_eq_some.mp hy

theorem over_of_outcome? (h : (w.outcome? j).isSome) (ht : w.strands[j]? = some t) :
    t.stage = .ended := by
  obtain ⟨o, ho⟩ := Option.isSome_iff_exists.mp h
  exact (done_of_outcome? ho ht).1

/-! ### What is left of strands -/

/-- What is left of a strand, and what it has done, is as its stage says. -/
structure Settled (w : Weave β) : Prop where
  fresh : ∀ (i : Nat) (s : Strand β), w.strands[i]? = some s → s.stage = .idle → w.path i = []
  asks : ∀ (i : Nat) (s : Strand β) (parts : List Nat), w.strands[i]? = some s →
    s.stage = .waiting parts → (∃ v next, s.program = .ask (.wait v) next) ∨
      ∃ next, s.program = .ask .halt next
  ends : ∀ (i : Nat) (s : Strand β), w.strands[i]? = some s → s.stage = .ended →
    ∃ x, s.program = .done x

/-- The strands of a weave are those of another one and some that have not begun. -/
theorem Settled.of_cases (hw : w.Settled)
    (h : ∀ (j : Nat) (t : Strand β), u.strands[j]? = some t →
      (w.strands[j]? = some t ∧ u.path j = w.path j) ∨ (t.stage = .idle ∧ u.path j = []) ∨
      (t.stage ≠ .idle ∧ (∀ parts, t.stage = .waiting parts →
        (∃ v next, t.program = .ask (.wait v) next) ∨ ∃ next, t.program = .ask .halt next) ∧
        (t.stage = .ended → ∃ x, t.program = .done x))) : u.Settled where
  fresh j t ht hidle := by
    obtain ⟨hold, hpath⟩ | ⟨-, hpath⟩ | ⟨hne, -⟩ := h j t ht
    · exact hpath.trans (hw.fresh j t hold hidle)
    · exact hpath
    · exact absurd hidle hne
  asks j t parts ht hwaits := by
    obtain ⟨hold, -⟩ | ⟨hidle, -⟩ | ⟨-, hasks, -⟩ := h j t ht
    · exact hw.asks j t parts hold hwaits
    · cases hidle.symm.trans hwaits
    · exact hasks parts hwaits
  ends j t ht hended := by
    obtain ⟨hold, -⟩ | ⟨hidle, -⟩ | ⟨-, -, hends⟩ := h j t ht
    · exact hw.ends j t hold hended
    · cases hidle.symm.trans hended
    · exact hends hended

theorem Settled.turn (hw : w.Settled) (hn : w.Numbered) (h : Turn program w u) : u.Settled := by
  refine hw.of_cases fun j t ht => ?_
  cases h with
  | @stage i s stage here hs hl enters =>
    rw [hs] at ht
    obtain ⟨rfl, rfl⟩ | ⟨-, ht⟩ := getElem?_set_cases ht
    · refine .inr (.inr ?_)
      cases enters with
      | running => exact ⟨fun h => (by cases h), fun _ h => (by cases h), fun h => by cases h⟩
      | waiting _ asks =>
        exact ⟨fun h => (by cases h), fun _ _ => .inl ⟨_, _, asks⟩, fun h => by cases h⟩
      | halted _ asks =>
        exact ⟨fun h => (by cases h), fun _ _ => .inr ⟨_, asks⟩, fun h => by cases h⟩
      | ended _ ends => exact ⟨fun h => (by cases h), fun _ h => (by cases h), fun _ => ⟨_, ends⟩⟩
    · exact .inl ⟨ht, path_congr hl j⟩
  | divide here asks hs hl =>
    rw [hs] at ht
    obtain ⟨rfl, rfl⟩ | ⟨-, ht⟩ := getElem?_set_cases ht
    · exact .inr (.inr ⟨fun h => (by cases h), fun _ _ => .inl ⟨_, _, asks⟩, fun h => by cases h⟩)
    · obtain ht | ⟨hlen, hmem⟩ := getElem?_append_cases ht
      · exact .inl ⟨ht, path_congr hl j⟩
      · obtain ⟨_, -, rfl⟩ := List.mem_map.mp hmem
        exact .inr (.inl ⟨rfl, (path_congr hl j).trans (hn.path_eq_nil hlen)⟩)
  | @answer i s a next answer v here asks resumes possible strands log =>
    subst resumes
    obtain ⟨rfl, rfl⟩ | ⟨hne, ht⟩ := getElem?_set_cases ht
    · exact .inr (.inr ⟨fun h => (by cases h), fun _ h => (by cases h), fun h => by cases h⟩)
    · have hpath : (v.resume i s a next answer).path j = w.path j :=
        (path_resume_of_ne hne).trans (path_congr log j)
      obtain hs | ⟨job, -, hs⟩ := strands
      · exact .inl ⟨hs ▸ ht, hpath⟩
      · rw [hs] at ht
        obtain ht | ⟨hlen, hmem⟩ := getElem?_append_cases ht
        · exact .inl ⟨ht, hpath⟩
        · rw [List.mem_singleton] at hmem
          subst hmem
          exact .inr (.inl ⟨rfl, hpath.trans (hn.path_eq_nil hlen)⟩)

/-- **Who waits has asked for something, and who has ended has a result.** -/
theorem Leads.settled {S : Weave β → Weave β → Prop} {mains : List (Steward β)}
    (h : Leads S (start mains) w) (hS : ∀ v u, S v u → Turn program v u) : w.Settled := by
  induction h with
  | refl =>
    have hidle : ∀ (i : Nat) (s : Strand β), (start mains).strands[i]? = some s →
        s.stage = .idle := by
      intro i s hs
      obtain ⟨p, -, rfl⟩ := start_here hs
      rfl
    refine ⟨fun _ _ _ _ => rfl, fun i s parts hs hwaits => ?_, fun i s hs hended => ?_⟩
    · cases (hidle i s hs).symm.trans hwaits
    · cases (hidle i s hs).symm.trans hended
  | step hlead hstep ih => exact ih.turn (hlead.numbered hS) (hS _ _ hstep)

/-- Who has ended stays as he is. -/
theorem Turn.ended (h : Turn program w u) (hw : w.Settled) (ht : w.strands[j]? = some t)
    (hended : t.stage = .ended) : u.strands[j]? = some t := by
  obtain ⟨x, hdone⟩ := hw.ends j t ht hended
  have hlt := lt_of_here ht
  -- a strand that changes has not ended
  have hset : ∀ {l : List (Strand β)} {i : Nat} {s s' : Strand β}, w.strands[i]? = some s →
      s ≠ t → l[j]? = some t → (l.set i s')[j]? = some t := by
    intro l i s s' hs hne hl
    have hij : i ≠ j := by
      rintro rfl
      exact hne (Option.some.inj (hs.symm.trans ht))
    rw [List.getElem?_set_ne hij, hl]
  cases h with
  | @stage i s stage here hs _ enters =>
    rw [hs]
    refine hset here ?_ ht
    rintro rfl
    cases enters with
    | running isIdle => cases hended.symm.trans isIdle
    | waiting runs | halted runs | ended runs => cases hended.symm.trans runs
  | divide here asks hs _ =>
    rw [hs]
    refine hset here ?_ ?_
    · rintro rfl
      cases asks.symm.trans hdone
    · rw [List.getElem?_append_left hlt, ht]
  | answer here asks resumes _ strands _ =>
    subst resumes
    refine hset here ?_ ?_
    · rintro rfl
      cases asks.symm.trans hdone
    · obtain hs | ⟨_, -, hs⟩ := strands
      · rw [hs, ht]
      · rw [hs, List.getElem?_append_left hlt, ht]

/-- Who ends has been at work, and only ends. -/
theorem Turn.ends {t' : Strand β} (h : Turn program w u) (ht : w.strands[j]? = some t)
    (hnot : t.stage ≠ .ended) (ht' : u.strands[j]? = some t') (hended : t'.stage = .ended) :
    t.stage = .running ∧ u.strands = w.strands.set j { t with stage := .ended } ∧
      u.log = w.log := by
  cases h with
  | @stage i s stage here hs hl enters =>
    have hstrands := hs
    rw [hs] at ht'
    obtain ⟨rfl, rfl⟩ | ⟨-, ht'⟩ := getElem?_set_cases ht'
    · cases ht.symm.trans here
      cases hended
      cases enters with
      | ended runs => exact ⟨runs, hstrands, hl⟩
    · cases ht.symm.trans ht'
      exact absurd hended hnot
  | divide here asks hs =>
    rw [hs] at ht'
    obtain ⟨rfl, rfl⟩ | ⟨-, ht'⟩ := getElem?_set_cases ht'
    · cases hended
    · rw [List.getElem?_append_left (lt_of_here ht), ht] at ht'
      cases ht'
      exact absurd hended hnot
  | answer here asks resumes _ strands =>
    subst resumes
    obtain ⟨rfl, rfl⟩ | ⟨-, ht'⟩ := getElem?_set_cases ht'
    · cases hended
    · have hold : w.strands[j]? = some t' := by
        obtain hs | ⟨_, -, hs⟩ := strands
        · exact hs ▸ ht'
        · rw [hs, List.getElem?_append_left (lt_of_here ht)] at ht'
          exact ht'
      cases ht.symm.trans hold
      exact absurd hended hnot

/-- A strand that has asked for something goes on asking for it, or is answered. -/
theorem Turn.program_cases {a : Act} {next : a.Answer → Steward (Outcome ⊕ β)}
    (h : Turn program w u) (ht : w.strands[j]? = some t) (asks : t.program = .ask a next) :
    (∃ t', u.strands[j]? = some t' ∧ t'.program = t.program) ∨
      ∃ answer : a.Answer, u.path j = w.path j ++ [⟨a, answer⟩] := by
  have hset : ∀ {l : List (Strand β)} {i : Nat} {s s' : Strand β}, w.strands[i]? = some s →
      s'.program = s.program → l[j]? = some t →
      ∃ t', (l.set i s')[j]? = some t' ∧ t'.program = t.program := by
    intro l i s s' hs hprogram hl
    by_cases hij : i = j
    · subst hij
      cases hs.symm.trans ht
      exact ⟨s', List.getElem?_set_self (List.getElem?_eq_some_iff.mp hl).1, hprogram⟩
    · exact ⟨t, by rw [List.getElem?_set_ne hij, hl], rfl⟩
  cases h with
  | stage here hs =>
    rw [hs]
    exact .inl (hset here rfl ht)
  | divide here _ hs =>
    rw [hs]
    exact .inl (hset here rfl (by rw [List.getElem?_append_left (lt_of_here ht), ht]))
  | @answer i s a' next' answer v here asks' resumes _ strands log =>
    subst resumes
    by_cases hij : i = j
    · subst hij
      cases here.symm.trans ht
      cases asks'.symm.trans asks
      exact .inr ⟨answer, by rw [path_resume_self, path_congr log]⟩
    · refine .inl ⟨t, ?_, rfl⟩
      rw [strands_resume, List.getElem?_set_ne hij]
      obtain hs | ⟨_, -, hs⟩ := strands
      · rw [hs, ht]
      · rw [hs, List.getElem?_append_left (lt_of_here ht), ht]

/-- What a job came to stays so. -/
theorem Turn.outcome? {o : Outcome} (h : Turn program w u) (hw : w.Settled)
    (ho : w.outcome? j = some o) : u.outcome? j = some o := by
  cases ht : w.strands[j]? with
  | none =>
    rw [Weave.outcome?, ht] at ho
    cases ho
  | some t =>
    have hended := over_of_outcome? (by rw [ho]; rfl) ht
    rw [outcome?_congr ((h.ended hw ht hended).trans ht.symm), ho]

end Weave

end CertSteward
