import CertSteward.Proofs.Issuance.Runs

/-!
# Visits to slots

Of all that goes on in a weave, little has to do with slots: a strand gets in line for a cell, is
given it, gives it up, takes a step on the table, or goes on with its errand elsewhere. Every stride
of a weave is one of these, and changes the errand of one strand at most.

## Main definitions

* `Weave.awaits` — the cell that a strand waits for
* `Weave.Visit` — what a step has to do with slots

## Main results

* `Contending.visit` — every stride is a visit
-/

namespace CertSteward

/-- The cell that a strand waits for. -/
def Strand.awaitedCell? {β : Type} (s : Strand β) : Option Nat :=
  match s.stage, s.program with
  | .waiting _, .ask (.wait (.slot c)) _ => some c
  | _, _ => none

/-- Whether a request has nothing to do with the cells of slots. -/
def Act.IsElsewhere : Act → Prop
  | .slots _ | .wait (.slot _) | .spawn _ => False
  | _ => True

/-- Whether a request starts a job. -/
def Act.IsSpawn : Act → Prop
  | .spawn _ => True
  | _ => False

theorem Act.IsElsewhere.not_isSpawn {a : Act} (h : a.IsElsewhere) : ¬ a.IsSpawn := by
  cases a with
  | spawn => exact h.elim
  | _ => exact id

namespace Weave

/-- The cell that a strand waits for. -/
def awaits {β : Type} (w : Weave β) (i : Nat) : Option Nat :=
  w.strands[i]?.bind Strand.awaitedCell?

/-- What an answer tells strand `i` of slots and of jobs that have ended. -/
def Tells (w : Weave Issued) (i : Nat) : (a : Act) → a.Answer → Prop
  | .slots a, answer => answer = (w.slots.apply none a).1.1
  | .wait (.join j), some o => w.outcome? j = some o
  | .wait (.all jobs), some outcomes => ∀ x ∈ jobs.zip outcomes, ∃ (j : Nat) (t : Strand Issued),
      w.strands[j]? = some t ∧ t.job = some x.1 ∧ t.owner = some i ∧ w.outcome? j = some x.2
  | _, _ => True

/-- A strand goes on with an answer, and no other strand waits for another cell than before. -/
structure Changes (w u : Weave Issued) (i : Nat) (s : Strand Issued) (a : Act)
    (answer : a.Answer) : Prop where
  here : w.strands[i]? = some s
  asks : ∃ next, s.program = .ask a next
  may : (w.errand i).May s.job s.isWatching a
  possible : a.CanGet s.isWatching answer
  tells : w.Tells i a answer
  job : u.job? i = w.job? i
  errand : u.errand i = (w.errand i).next a answer
  awaits : u.awaits i = none
  others : ∀ j, j ≠ i → u.awaits j = w.awaits j
  log : u.log = w.log ++ [{ strand := i, run := s.run, act := a, answer }]

/-- The errands of all other strands stay as they are. -/
def Apart (w u : Weave Issued) (i : Nat) : Prop := ∀ j, j ≠ i → u.errand j = w.errand j

/-- What a step has to do with slots. -/
inductive Visit (w u : Weave Issued) : Prop
  | calm (errand : ∀ j, u.errand j = w.errand j) (awaits : ∀ j, u.awaits j = w.awaits j)
    (slots : u.slots = w.slots) (log : u.log = w.log)
  /-- A strand asks to hold a cell. -/
  | enter {i c : Nat} {s : Strand Issued} {k : SlotKey} (here : w.strands[i]? = some s)
    (runs : s.stage = .running) (at_ : w.errand i = .found k c)
    (errand : ∀ j, u.errand j = w.errand j) (before : w.awaits i = none)
    (after : u.awaits i = some c) (others : ∀ j, j ≠ i → u.awaits j = w.awaits j)
    (slots : u.slots = (w.slots.enter c i).2) (log : u.log = w.log)
  /-- It holds the cell. -/
  | got {i c : Nat} {s : Strand Issued} (change : w.Changes u i s (.wait (.slot c)) (some ()))
    (apart : w.Apart u i) (before : w.awaits i = some c) (granted : i ∉ w.slots.line c)
    (slots : u.slots = w.slots)
  /-- It does not wait for the cell any longer. -/
  | gaveUp {i c : Nat} {s : Strand Issued} (change : w.Changes u i s (.wait (.slot c)) none)
    (apart : w.Apart u i) (before : w.awaits i = some c)
    (slots : u.slots = if i ∈ w.slots.line c then w.slots.withdraw c i else (w.slots.leave c).2)
  /-- It may not wait for the cell at all. -/
  | refused {i c : Nat} {s : Strand Issued} (change : w.Changes u i s (.wait (.slot c)) none)
    (apart : w.Apart u i) (before : w.awaits i = none) (slots : u.slots = w.slots)
  | act {i : Nat} {s : Strand Issued} {a : TableAct SlotKey (Option String)} {answer : a.Answer}
    (change : w.Changes u i s (.slots a) answer) (apart : w.Apart u i)
    (runs : s.stage = .running) (before : w.awaits i = none)
    (slots : u.slots = (w.slots.apply none a).2)
  /-- A job is started that makes a record. -/
  | spawn {i c : Nat} {s : Strand Issued} {name value : String}
    (change : w.Changes u i s (.spawn (.createRecord c name value)) w.strands.length)
    (apart : ∀ j, j ≠ i → j ≠ w.strands.length → u.errand j = w.errand j)
    (runs : s.stage = .running) (before : w.awaits i = none)
    (new : u.errand w.strands.length = .making (slotKey name value) c)
    (begun : ∃ t : Strand Issued, u.strands[w.strands.length]? = some t ∧
      t.job = some (.createRecord c name value) ∧ t.run = s.run)
    (slots : u.slots = w.slots)
  /-- Anything else. -/
  | other {i : Nat} {s : Strand Issued} {a : Act} {answer : a.Answer}
    (change : w.Changes u i s a answer) (apart : w.Apart u i) (before : w.awaits i = none)
    (elsewhere : a.IsElsewhere) (slots : u.slots = w.slots)

variable {w u : Weave Issued} {i j : Nat} {s t : Strand Issued}

/-- A change is a step of an errand. -/
theorem Changes.moves {a : Act} {answer : a.Answer} (h : w.Changes u i s a answer) :
    (w.errand i).Moves s.job a answer (u.errand i) := by
  rw [h.errand]
  exact h.may.moves answer

/-- How a strand has come to its errand. -/
inductive Comes (w u : Weave Issued) (j : Nat) : Prop
  | same (errand : u.errand j = w.errand j)
  | moved {s : Strand Issued} {a : Act} {answer : a.Answer} (change : w.Changes u j s a answer)
    (noSpawn : ¬ a.IsSpawn) (moves : (w.errand j).Moves s.job a answer (u.errand j))
    (runs : ∀ step, a = .slots step → s.stage = .running)
  /-- It has just started a job. -/
  | passed {s t : Strand Issued} {c : Nat} {name value : String} (here : w.strands[j]? = some s)
    (before : w.errand j = .sharing (slotKey name value) c)
    (after : u.errand j = .started (slotKey name value) c w.strands.length)
    (begun : u.strands[w.strands.length]? = some t)
    (job : t.job = some (.createRecord c name value)) (run : t.run = s.run)
  /-- It has just been started. -/
  | begun {i c : Nat} {s t : Strand Issued} {name value : String}
    (before : w.errand i = .sharing (slotKey name value) c) (new : j = w.strands.length)
    (after : u.errand j = .making (slotKey name value) c)
    (here : u.strands[j]? = some t) (job : t.job = some (.createRecord c name value))
    (starter : w.strands[i]? = some s) (runs : s.stage = .running) (run : t.run = s.run)

theorem Visit.comes (h : w.Visit u) (j : Nat) : w.Comes u j := by
  have hchange : ∀ {i s a} {answer : a.Answer}, w.Changes u i s a answer → w.Apart u i →
      ¬ a.IsSpawn → (∀ step, a = .slots step → s.stage = .running) → w.Comes u j := by
    intro i s a answer change apart hspawn hruns
    by_cases hj : j = i
    · subst hj
      exact .moved change hspawn change.moves hruns
    · exact .same (apart j hj)
  cases h with
  | calm errand | enter _ _ _ errand => exact .same (errand j)
  | got change apart | gaveUp change apart | refused change apart =>
    exact hchange change apart id nofun
  | act change apart runs => exact hchange change apart id fun _ _ => runs
  | other change apart _ elsewhere =>
    refine hchange change apart elsewhere.not_isSpawn ?_
    rintro _ rfl
    exact elsewhere.elim
  | @spawn i c s name value change apart runs _ new begun =>
    obtain ⟨d, name', value', hat, hjob⟩ := change.may
    obtain ⟨rfl, rfl, rfl⟩ := Job.createRecord.inj hjob
    obtain ⟨t, ht, hjob, hrun⟩ := begun
    by_cases hj : j = i
    · subst hj
      have hafter : u.errand j = .started (slotKey name value) c w.strands.length := by
        rw [change.errand, hat]
        rfl
      exact .passed change.here hat hafter ht hjob hrun
    · by_cases hlen : j = w.strands.length
      · subst hlen
        exact .begun hat rfl new ht hjob change.here runs hrun
      · exact .same (apart j hj hlen)

/-- What was answered stays so. -/
theorem Visit.log (h : w.Visit u) : ∃ es, u.log = w.log ++ es := by
  cases h with
  | calm _ _ _ log | enter _ _ _ _ _ _ _ _ log => exact ⟨[], by rw [log, List.append_nil]⟩
  | got change | gaveUp change | refused change | act change | spawn change | other change =>
    exact ⟨_, change.log⟩

/-- The journal of a strand stays as it is, or an answer is noted. A step on the table is taken by a
strand that goes on, and leaves the errands of others alone. -/
theorem Visit.journal_cases (h : w.Visit u) (here : w.strands[i]? = some s)
    (hjob : u.job? i = w.job? i) (limit : Duration) :
    u.journal limit i = w.journal limit i ∨ ∃ (a : Act) (answer : a.Answer),
      w.Changes u i s a answer ∧ (∀ step, a = .slots step → s.stage = .running ∧ w.Apart u i) ∧
        u.journal limit i = (w.journal limit i).note limit a answer := by
  have hsame : u.log = w.log → u.journal limit i = w.journal limit i := fun log =>
    journal_congr (path_congr log i) hjob
  have hchange : ∀ {j t a} {answer : a.Answer}, w.Changes u j t a answer →
      (∀ step, a = .slots step → t.stage = .running ∧ w.Apart u j) →
      u.journal limit i = w.journal limit i ∨ ∃ (a : Act) (answer : a.Answer),
        w.Changes u i s a answer ∧ (∀ step, a = .slots step → s.stage = .running ∧ w.Apart u i) ∧
          u.journal limit i = (w.journal limit i).note limit a answer := by
    intro j t a answer change hslots
    have hpath := path_append (j := i) change.log
    by_cases hij : j = i
    · subst hij
      obtain rfl := Option.some.inj (here.symm.trans change.here)
      rw [if_pos rfl] at hpath
      exact .inr ⟨a, answer, change, hslots, journal_append hpath hjob⟩
    · rw [if_neg hij] at hpath
      exact .inl (journal_congr hpath hjob)
  cases h with
  | calm _ _ _ log | enter _ _ _ _ _ _ _ _ log => exact .inl (hsame log)
  | got change | gaveUp change | refused change | spawn change => exact hchange change nofun
  | act change apart runs => exact hchange change fun _ _ => ⟨runs, apart⟩
  | other change _ _ elsewhere =>
    refine hchange change ?_
    rintro _ rfl
    exact elsewhere.elim

theorem awaits_of_running (here : w.strands[i]? = some s) (runs : s.stage = .running) :
    w.awaits i = none := by
  rw [awaits, here, Option.bind_some, Strand.awaitedCell?, runs]

theorem awaits_of_slot {parts : List Nat} {c : Nat}
    {next : Option Unit → Steward (Outcome ⊕ Issued)} (here : w.strands[i]? = some s)
    (waits : s.stage = .waiting parts) (asks : s.program = .ask (.wait (.slot c)) next) :
    w.awaits i = some c := by
  rw [awaits, here, Option.bind_some, Strand.awaitedCell?, waits, asks]

theorem awaits_of_elsewhere {a : Act} {next : a.Answer → Steward (Outcome ⊕ Issued)}
    (here : w.strands[i]? = some s) (asks : s.program = .ask a next) (h : a.IsElsewhere) :
    w.awaits i = none := by
  rw [awaits, here, Option.bind_some, Strand.awaitedCell?, asks]
  split
  · rename_i heq
    cases heq
    exact h.elim
  · rfl

theorem awaits_congr (h : u.strands[j]? = w.strands[j]?) : u.awaits j = w.awaits j := by
  rw [awaits, awaits, h]

/-- A strand that waits for a cell has asked for it. -/
theorem asks_of_awaits {c : Nat} (h : w.awaits i = some c) :
    ∃ s parts next, w.strands[i]? = some s ∧ s.stage = .waiting parts ∧
      s.program = .ask (.wait (.slot c)) next := by
  rw [awaits, Option.bind_eq_some_iff] at h
  obtain ⟨s, here, h⟩ := h
  rw [Strand.awaitedCell?] at h
  split at h
  · rename_i parts d next hstage hprogram
    cases h
    exact ⟨s, parts, next, here, hstage, hprogram⟩
  · cases h

/-- A strand in its place has the job that it had. -/
theorem job?_set {l : List (Strand Issued)} (here : l[i]? = some s) (hjob : t.job = s.job) :
    (l.set i t)[j]?.bind (·.job) = l[j]?.bind (·.job) := by
  by_cases hij : i = j
  · subst hij
    rw [List.getElem?_set_self (List.getElem?_eq_some_iff.mp here).1, here]
    exact hjob
  · rw [List.getElem?_set_ne hij]

section Grown

variable {new : List (Strand Issued)}

/-- A strand in its place has the job that it had. -/
theorem job?_grown (here : w.strands[i]? = some s) (hjob : t.job = s.job)
    (strands : u.strands = (w.strands ++ new).set i t) (hj : j < w.strands.length) :
    u.job? j = w.job? j := by
  rw [job?, job?, strands]
  by_cases hij : i = j
  · subst hij
    rw [List.getElem?_set_self (by simp [Nat.lt_add_right, hj]), here]
    exact hjob
  · rw [List.getElem?_set_ne hij, List.getElem?_append_left hj]

/-- Strands that have not begun wait for nothing. -/
theorem awaits_grown (hnew : ∀ t ∈ new, t.stage = .idle)
    (strands : u.strands = (w.strands ++ new).set i t) (hj : j ≠ i) : u.awaits j = w.awaits j := by
  by_cases hlt : j < w.strands.length
  · refine awaits_congr ?_
    rw [strands, List.getElem?_set_ne (Ne.symm hj), List.getElem?_append_left hlt]
  · have hle := Nat.not_lt.mp hlt
    rw [awaits, awaits, List.getElem?_eq_none hle, strands, List.getElem?_set_ne (Ne.symm hj),
      List.getElem?_append_right hle]
    cases hx : new[j - w.strands.length]? with
    | none => rfl
    | some x =>
      rw [Option.bind_some, Strand.awaitedCell?, hnew x (List.mem_of_getElem? hx)]
      rfl

/-- Strands from before go on with their errands, and others begin. -/
theorem errand_grown (hw : w.Numbered) (here : w.strands[i]? = some s) (hjob : t.job = s.job)
    (strands : u.strands = (w.strands ++ new).set i t) (hpath : u.path j = w.path j) :
    u.errand j = if j < w.strands.length then w.errand j else .start (u.job? j) := by
  split
  · rename_i hlt
    exact errand_congr hpath (job?_grown here hjob strands hlt)
  · rename_i hlt
    rw [errand, hpath, hw.path_eq_nil (Nat.not_lt.mp hlt), List.foldl_nil]

theorem errand_of_le (hw : w.Numbered) (hj : w.strands.length ≤ j) : w.errand j = .blank := by
  rw [errand, hw.path_eq_nil hj, job?, List.getElem?_eq_none hj]
  rfl

end Grown

section Resume

variable {v : Weave Issued} {a : Act} {next : a.Answer → Steward (Outcome ⊕ Issued)}
variable {answer : a.Answer} {new : List (Strand Issued)}

theorem changes_grown (here : w.strands[i]? = some s) (asks : s.program = .ask a next)
    (strands : v.strands = w.strands ++ new)
    (hnew : ∀ t ∈ new, t.stage = .idle) (log : v.log = w.log)
    (may : (w.errand i).May s.job s.isWatching a) (possible : a.CanGet s.isWatching answer)
    (tells : w.Tells i a answer) : w.Changes (v.resume i s a next answer) i s a answer where
  here := here
  asks := ⟨next, asks⟩
  may := may
  possible := possible
  tells := tells
  job := by
    have hset : (v.resume i s a next answer).strands = (w.strands ++ new).set i _ :=
      congrArg (fun l : List (Strand Issued) => l.set i _) strands
    refine job?_grown here ?_ hset (lt_of_here here)
    rfl
  errand := by
    have hpath : (v.resume i s a next answer).path i = w.path i ++ [⟨a, answer⟩] := by
      rw [path_resume_self, path_congr log]
    have hset : (v.resume i s a next answer).strands = (w.strands ++ new).set i _ :=
      congrArg (fun l : List (Strand Issued) => l.set i _) strands
    refine errand_append hpath (job?_grown here ?_ hset (lt_of_here here))
    rfl
  awaits := by
    refine awaits_of_running (List.getElem?_set_self ?_) rfl
    rw [strands, List.length_append]
    exact Nat.lt_add_right _ (lt_of_here here)
  others j hj := by
    have hset : (v.resume i s a next answer).strands = (w.strands ++ new).set i _ :=
      congrArg (fun l : List (Strand Issued) => l.set i _) strands
    exact awaits_grown hnew hset hj
  log := by rw [log_resume, log]

theorem changes_resume (here : w.strands[i]? = some s) (asks : s.program = .ask a next)
    (strands : v.strands = w.strands) (log : v.log = w.log) (may : (w.errand i).May s.job s.isWatching a)
    (possible : a.CanGet s.isWatching answer) (tells : w.Tells i a answer) :
    w.Changes (v.resume i s a next answer) i s a answer :=
  changes_grown here asks (show v.strands = w.strands ++ [] by rw [strands, List.append_nil])
    (fun _ h => absurd h List.not_mem_nil) log may possible tells

/-- A strand that goes on leaves the errands of the others alone. -/
theorem apart_resume (here : w.strands[i]? = some s) (strands : v.strands = w.strands)
    (log : v.log = w.log) : w.Apart (v.resume i s a next answer) i := by
  intro j hj
  have hpath : (v.resume i s a next answer).path j = w.path j :=
    (path_resume_of_ne hj).trans (path_congr log j)
  have hset : (v.resume i s a next answer).strands = w.strands.set i _ :=
    congrArg (fun l : List (Strand Issued) => l.set i _) strands
  refine errand_congr hpath ?_
  rw [job?, hset]
  exact job?_set here rfl

end Resume

end Weave

namespace Contending

open Weave

variable {p : RenewalPractice} {requests : List (IssuanceRequest × LockMode)}
variable {w u : Weave Issued} {i : Nat} {s : Strand Issued}

/-- An answer that has nothing to do with slots. -/
theorem visit_other {v : Weave Issued} {a : Act} {next : a.Answer → Steward (Outcome ⊕ Issued)}
    {answer : a.Answer} (h : Contending p requests w) (here : w.strands[i]? = some s)
    (asks : s.program = .ask a next) (strands : v.strands = w.strands) (log : v.log = w.log)
    (slots : v.slots = w.slots) (elsewhere : a.IsElsewhere) (possible : a.CanGet s.isWatching answer)
    (tells : w.Tells i a answer) : w.Visit (v.resume i s a next answer) :=
  .other (changes_resume here asks strands log (h.may here asks) possible tells)
    (apart_resume here strands log) (awaits_of_elsewhere here asks elsewhere) elsewhere slots

/-- A strand that comes to a stage in which it waits for no cell. -/
theorem visit_stage {stage : Strand.Stage} (here : w.strands[i]? = some s)
    (strands : u.strands = w.strands.set i { s with stage }) (slots : u.slots = w.slots)
    (log : u.log = w.log) (before : w.awaits i = none)
    (after : Strand.awaitedCell? { s with stage } = none) : w.Visit u := by
  refine .calm (fun j => ?_) (fun j => ?_) slots log
  · refine errand_congr (path_congr log j) ?_
    rw [job?, strands]
    exact job?_set here rfl
  · by_cases hj : j = i
    · subst hj
      rw [before, awaits, strands, List.getElem?_set_self (lt_of_here here)]
      exact after
    · exact awaits_congr (by rw [strands, List.getElem?_set_ne (Ne.symm hj)])

/-- A strand starts a job that makes a record. -/
theorem visit_spawn {c : Nat} {name value : String} {program : Job → Steward Outcome}
    {next : Nat → Steward (Outcome ⊕ Issued)} (hw : w.Numbered) (here : w.strands[i]? = some s)
    (runs : s.stage = .running)
    (asks : s.program = .ask (.spawn (.createRecord c name value)) next)
    (may : (w.errand i).May s.job s.isWatching (.spawn (.createRecord c name value))) :
    w.Visit ((w.serve program s (.spawn (.createRecord c name value))).resume i s
      (.spawn (.createRecord c name value)) next w.strands.length) := by
  let t := s.ofJob program none (.createRecord c name value)
  have hnew : ∀ x ∈ [t], x.stage = .idle := fun x hx => by rw [List.mem_singleton.mp hx]; rfl
  have hchange : w.Changes _ i s (.spawn (.createRecord c name value)) w.strands.length :=
    changes_grown (v := w.serve program s (.spawn (.createRecord c name value))) here asks rfl
      hnew rfl may trivial trivial
  have hset : ((w.serve program s (.spawn (.createRecord c name value))).resume i s
      (.spawn (.createRecord c name value)) next w.strands.length).strands =
      (w.strands ++ [t]).set i { s with program := next w.strands.length, stage := .running } := rfl
  have herrand := fun j (hj : j ≠ i) =>
    errand_grown (t := { s with program := next w.strands.length, stage := .running }) hw here rfl
      hset ((path_resume_of_ne hj).trans (path_congr rfl j))
  have hne : i ≠ w.strands.length := Nat.ne_of_lt (lt_of_here here)
  have hbegun : (w.strands ++ [t])[w.strands.length]? = some t := by
    rw [List.getElem?_append_right (Nat.le_refl _), Nat.sub_self]
    rfl
  refine .spawn hchange (fun j hj hlen => ?_) runs (awaits_of_running here runs) ?_ ⟨t, ?_, rfl, rfl⟩
    rfl
  · rw [herrand j hj]
    split
    · rfl
    · rename_i hlt
      have hnone : (w.strands ++ [t])[j]? = none := by
        rw [List.getElem?_eq_none_iff, List.length_append]
        have : w.strands.length < j := Nat.lt_of_le_of_ne (Nat.not_lt.mp hlt) (Ne.symm hlen)
        exact this
      rw [errand_of_le hw (Nat.not_lt.mp hlt), job?, hset, List.getElem?_set_ne (Ne.symm hj), hnone]
      rfl
  · rw [herrand _ (Ne.symm hne), if_neg (Nat.lt_irrefl _), job?, hset, List.getElem?_set_ne hne,
      hbegun]
    rfl
  · rw [hset, List.getElem?_set_ne hne, hbegun]

/-- The parts of a run have not been at a slot before they begin. -/
theorem start_of_owner {j : Job} {run o : Nat} (h : j.MayBelong run (some o)) :
    Errand.start (some j) = .blank := by
  cases j with
  | createRecord => cases h
  | _ => rfl

/-- A strand begins to wait for jobs. -/
theorem visit_divide {jobs : List Job} {program : Job → Steward Outcome}
    {next : Option (List Outcome) → Steward (Outcome ⊕ Issued)} (hw : w.Numbered) (hu : u.Kinds)
    (here : w.strands[i]? = some s) (runs : s.stage = .running)
    (asks : s.program = .ask (.wait (.all jobs)) next)
    (hset : u.strands = (w.strands ++ jobs.map (s.ofJob program (some i))).set i
      { s with stage := .waiting (w.fresh jobs.length) })
    (slots : u.slots = w.slots) (log : u.log = w.log) : w.Visit u := by
  have hawaits := awaits_of_running here runs
  refine .calm (fun j => ?_) (fun j => ?_) slots log
  · rw [errand_grown (t := { s with stage := .waiting (w.fresh jobs.length) }) hw here rfl hset
      (path_congr log j)]
    split
    · rfl
    · rename_i hlt
      have hlt := Nat.not_lt.mp hlt
      have hne : i ≠ j := Nat.ne_of_lt (Nat.lt_of_lt_of_le (lt_of_here here) hlt)
      rw [errand_of_le hw hlt]
      cases ht : u.strands[j]? with
      | none => rw [job?, ht]; rfl
      | some t =>
        have hmem := ht
        rw [hset, List.getElem?_set_ne hne, List.getElem?_append_right hlt] at hmem
        obtain ⟨job, -, rfl⟩ := List.mem_map.mp (List.mem_of_getElem? hmem)
        rw [job?_of_here ht]
        exact start_of_owner (hu.job j _ job ht rfl)
  · by_cases hj : j = i
    · subst hj
      have hlt : j < (w.strands ++ jobs.map (s.ofJob program (some j))).length := by
        rw [List.length_append]
        exact Nat.lt_add_right _ (lt_of_here here)
      rw [hawaits, awaits, hset, List.getElem?_set_self hlt, Option.bind_some,
        Strand.awaitedCell?, asks]
    · refine awaits_grown (fun t ht => ?_) hset hj
      obtain ⟨job, -, rfl⟩ := List.mem_map.mp ht
      rfl

/-- The outcomes that a strand gets are those of the jobs that it waited for. -/
theorem gathered {parts : List Nat} {jobs : List Job} {outcomes : List Outcome}
    {next : Option (List Outcome) → Steward (Outcome ⊕ Issued)} (h : Contending p requests w)
    (here : w.strands[i]? = some s) (waits : s.stage = .waiting parts)
    (asks : s.program = .ask (.wait (.all jobs)) next)
    (ended : parts.map w.outcome? = outcomes.map some) :
    w.Tells i (.wait (.all jobs)) (some outcomes) := by
  rintro ⟨job, o⟩ hmem
  obtain ⟨base, rfl, hjobs⟩ := divided_of_strides h i s parts jobs next here waits asks
  obtain ⟨n, hn⟩ := List.mem_iff_getElem?.mp hmem
  obtain ⟨hjob, ho⟩ := List.getElem?_zip_eq_some.mp hn
  obtain ⟨t, ht, htjob, howner, -⟩ := hjobs n job hjob
  refine ⟨base + n, t, ht, htjob, howner, ?_⟩
  have hlt := (List.getElem?_eq_some_iff.mp hjob).1
  have hend := congrArg (·[n]?) ended
  simp only [List.getElem?_map, List.getElem?_range' hlt, ho, Option.map_some,
    Nat.one_mul] at hend
  exact Option.some.inj hend

/-- **Every stride is a visit.** -/
theorem visit (h : Contending p requests w) (step : Weave.Stride p.program w u) : w.Visit u := by
  have hkinds : u.Kinds := Contending.kinds (Leads.step h step : Contending p requests u)
  have hnumbered := numbered_of_strides h
  cases step with
  | @begin i s here isIdle =>
    have hidle : w.awaits i = none := by
      rw [awaits, here, Option.bind_some, Strand.awaitedCell?, isIdle]
    exact visit_stage here rfl rfl rfl hidle rfl
  | finish here runs => exact visit_stage here rfl rfl rfl (awaits_of_running here runs) rfl
  | halt here runs asks =>
    refine visit_stage here rfl rfl rfl (awaits_of_running here runs) ?_
    rw [Strand.awaitedCell?, asks]
  | @goOn i s parts v next answer here waits asks isOver =>
    cases v with
    | slot c =>
      have hmay := h.may here asks
      exact .got (changes_resume here asks rfl rfl hmay trivial trivial) (apart_resume here rfl rfl)
        (awaits_of_slot here waits asks) isOver rfl
    | join j => exact visit_other h here asks rfl rfl rfl trivial trivial isOver
    | all jobs => exact isOver.elim
    | _ => exact visit_other h here asks rfl rfl rfl trivial trivial trivial
  | @interrupt i s parts v next here waits asks _ watches =>
    have hpossible : (Act.wait v).CanGet s.isWatching none := Act.canGet_wait_none.mpr watches
    have hstrands := strands_withdraw (w := w) (i := i) v
    have hlog := log_withdraw (w := w) (i := i) v
    cases v with
    | slot c =>
      have hmay := h.may here asks
      exact .gaveUp (changes_resume here asks hstrands hlog hmay hpossible trivial)
        (apart_resume here hstrands hlog) (awaits_of_slot here waits asks) rfl
    | _ => exact visit_other h here asks hstrands hlog rfl trivial hpossible trivial
  | gather here waits asks ended =>
    exact visit_other h here asks rfl rfl rfl trivial
      ((divided_of_strides h).canGet_of_ended here waits asks ended) (gathered h here waits asks ended)
  | abandon here _ asks _ watches =>
    exact visit_other h here asks rfl rfl rfl trivial (Act.canGet_wait_none.mpr watches) trivial
  | @act i s a next answer here runs asks fits =>
    have hmay := h.may here asks
    have hlog : (w.serve p.program s a).log = w.log := log_serve a
    have hawaits := awaits_of_running here runs
    cases a with
    | slots a =>
      exact .act (changes_resume here asks rfl rfl hmay trivial fits) (apart_resume here rfl rfl)
        runs hawaits rfl
    | spawn j =>
      obtain ⟨c, name, value, -, rfl⟩ := hmay
      exact fits ▸ visit_spawn hnumbered here runs asks (h.may here asks)
    | wait v => exact fits.elim
    | _ => exact visit_other h here asks rfl hlog rfl trivial trivial trivial
  | @wait i s v next here runs asks simple =>
    have hawaits := awaits_of_running here runs
    have hstrands : ((w.enter i v).put i { s with stage := .waiting [] }).strands =
        w.strands.set i { s with stage := .waiting [] } :=
      congrArg (fun l : List (Strand Issued) => l.set i _) (strands_enter v)
    cases v with
    | slot c =>
      obtain ⟨⟨k, hat⟩, -⟩ := h.may here asks
      refine .enter here runs hat (fun j => ?_) hawaits ?_ (fun j hj => ?_) rfl rfl
      · exact errand_congr (path_congr rfl j) (job?_set here rfl)
      · exact awaits_of_slot (List.getElem?_set_self (lt_of_here here)) rfl asks
      · exact awaits_congr (List.getElem?_set_ne (Ne.symm hj))
    | _ =>
      refine visit_stage here hstrands rfl rfl hawaits ?_
      rw [Strand.awaitedCell?, asks]
  | divide here runs asks => exact visit_divide hnumbered hkinds here runs asks rfl rfl rfl
  | @refuse i s v next here runs asks watches =>
    have hawaits := awaits_of_running here runs
    have hpossible : (Act.wait v).CanGet s.isWatching none := Act.canGet_wait_none.mpr watches
    cases v with
    | slot c =>
      exact .refused (changes_resume here asks rfl rfl (h.may here asks) hpossible trivial)
        (apart_resume here rfl rfl) hawaits rfl
    | _ => exact visit_other h here asks rfl rfl rfl trivial hpossible trivial

/-- The journal of a strand stays as it is, or an answer is noted. -/
theorem journal_cases (h : Contending p requests w) (step : Weave.Stride p.program w u)
    (here : w.strands[i]? = some s) (limit : Duration) :
    u.journal limit i = w.journal limit i ∨ ∃ (a : Act) (answer : a.Answer),
      w.Changes u i s a answer ∧ u.journal limit i = (w.journal limit i).note limit a answer := by
  obtain ⟨t, ht, hjob, -⟩ := step.turn.same here
  obtain hsame | ⟨a, answer, change, -, hnote⟩ :=
    (visit h step).journal_cases here (by rw [job?_of_here ht, job?_of_here here, hjob]) limit
  · exact .inl hsame
  · exact .inr ⟨a, answer, change, hnote⟩

/-! ### Jobs and their errands -/

/-- **Strands go on no errands but their own.** -/
theorem suits (h : Contending p requests w) (here : w.strands[i]? = some s) :
    (w.errand i).Suits s.job := by
  unfold Contending at h
  induction h generalizing i s with
  | refl =>
    rw [errand_start]
    trivial
  | @step v u reach step ih =>
    -- a strand that has not begun is where it begins
    have hfresh : s.stage = .idle → (u.errand i).Suits s.job := by
      intro hidle
      rw [errand, (settled_of_strides (.step reach step)).fresh i s here hidle, job?_of_here here]
      exact Errand.suits_start s.job
    cases step.turn.origin here with
    | part _ _ _ _ hidle => exact hfresh hidle
    | started _ _ _ hidle => exact hfresh hidle
    | @old t ht job owner run =>
      have hold := ih ht
      cases (visit reach step).comes i with
      | same errand =>
        rw [errand, job]
        exact hold
      | @moved t' a answer change =>
        obtain rfl := Option.some.inj (ht.symm.trans change.here)
        rw [change.errand, job]
        exact hold.next change.may answer
      | passed _ before after =>
        rw [before] at hold
        rw [after, job]
        exact hold
      | begun _ new => exact absurd (lt_of_here ht) (Nat.not_lt.mpr (Nat.le_of_eq new.symm))

/-- A job that was started by a strand at a slot makes the record of that slot. -/
theorem started {k : SlotKey} {c j : Nat} (h : Contending p requests w)
    (here : w.strands[i]? = some s) (hat : w.errand i = .started k c j) :
    ∃ t name value, w.strands[j]? = some t ∧ t.job = some (.createRecord c name value) ∧
      k = slotKey name value ∧ t.run = s.run := by
  unfold Contending at h
  induction h generalizing i s with
  | refl =>
    rw [errand_start] at hat
    cases hat
  | @step v u reach step ih =>
    have hkeep : ∀ {s' : Strand Issued}, v.strands[i]? = some s' → v.errand i = .started k c j →
        ∃ t name value, u.strands[j]? = some t ∧ t.job = some (.createRecord c name value) ∧
          k = slotKey name value ∧ t.run = s.run := by
      intro s' hs' hold
      obtain ⟨t, name, value, ht, hjob, hk, hrun⟩ := ih hs' hold
      obtain ⟨t', ht', hjob', -, hrun'⟩ := step.turn.same ht
      obtain ⟨s'', hs'', -, -, hrun''⟩ := step.turn.same hs'
      obtain rfl := Option.some.inj (here.symm.trans hs'')
      exact ⟨t', name, value, ht', hjob'.trans hjob, hk, (hrun'.trans hrun).trans hrun''.symm⟩
    -- a strand from before was at this point already, or has just started the job
    have hcases : v.errand i = .started k c j ∨ ∃ t name value, u.strands[j]? = some t ∧
        t.job = some (.createRecord c name value) ∧ k = slotKey name value ∧ t.run = s.run := by
      cases (visit reach step).comes i with
      | same errand => exact .inl (errand.symm.trans hat)
      | moved _ noSpawn moves =>
        rw [hat] at moves
        generalize v.errand i = e at moves
        cases moves with
        | stay => exact .inl rfl
        | pass => exact absurd trivial noSpawn
      | @passed s' t d name value hs' before after begun job run =>
        obtain ⟨s'', hs'', -, -, hrun⟩ := step.turn.same hs'
        obtain rfl := Option.some.inj (here.symm.trans hs'')
        cases hat.symm.trans after
        exact .inr ⟨t, name, value, begun, job, rfl, run.trans hrun.symm⟩
      | begun _ _ after => cases hat.symm.trans after
    obtain hold | hnew := hcases
    · cases hs' : v.strands[i]? with
      | some s' => exact hkeep hs' hold
      | none =>
        have hle := List.getElem?_eq_none_iff.mp hs'
        rw [errand_of_le (numbered_of_strides reach) hle] at hold
        cases hold
    · exact hnew

end Contending

end CertSteward
