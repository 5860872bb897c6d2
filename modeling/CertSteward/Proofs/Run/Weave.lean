import CertSteward.Proofs.Run.Conduct
import CertSteward.Proofs.Run.MutexTable

/-!
# Programs that run beside each other

A *weave* is a number of programs that run beside each other: main programs and the jobs that they
start, each of them a *strand*. Authority, DNS service, clocks and names may answer anything; only
the tables of slots, domains and permits and the strands themselves behave as they are.

This module has the weave and what a request changes in it. Which strand is next is said by a
relation between weaves, of which nothing is known here but what it does to strands and log: a
strand comes to another stage, is divided, or goes on with an answer.

## Main definitions

* `Strand`, `Weave` — programs under way, and everything that they share
* `Event` — a request that was answered, with the strand that made it
* `Weave.Leads` — what steps lead to
* `Weave.Turn` — what a step does to strands and log
* `Weave.path`, `Weave.outcome?`, `Weave.returned` — what a strand went through and came to

## Main results

* `Weave.Turn.same`, `Weave.Turn.origin` — strands stay what they are, and come from others
* `Weave.Leads.event` — every answer was given to a strand that had asked
* `Weave.Leads.divided` — the parts of a strand do the jobs that it waits for, in their order
-/

namespace CertSteward

/-- How far a strand is. -/
inductive Strand.Stage
  /-- It has not begun. -/
  | idle
  /-- It goes on. -/
  | running
  /-- It waits, perhaps for parts of itself. -/
  | waiting (parts : List Nat)
  | ended
deriving DecidableEq

/-- A program under way. -/
structure Strand (β : Type) where
  /-- The main program that it belongs to. -/
  run : Nat
  /-- The job that it does, unless it is a main program. -/
  job : Option Job := none
  /-- The strand that it is a part of. -/
  owner : Option Nat := none
  /-- What is left of its program. -/
  program : Steward (Outcome ⊕ β)
  /-- Whether its waits can be interrupted. -/
  isWatching : Bool := false
  stage : Strand.Stage := .idle

/-- What came of a strand that has ended. -/
def Strand.result? {β : Type} (s : Strand β) : Option (Outcome ⊕ β) :=
  match s.stage, s.program with
  | .ended, .done x => some x
  | _, _ => none

/-- A request that was answered. -/
structure Event where
  /-- The strand that made it. -/
  strand : Nat
  /-- The main program that the strand belongs to. -/
  run : Nat
  act : Act
  answer : act.Answer

/-- Programs under way and what they share. -/
structure Weave (β : Type) where
  strands : List (Strand β)
  slots : MutexTable SlotKey (Option String) := {}
  locks : MutexTable String Unit := {}
  permits : Array Permits := #[]
  /-- All requests that were answered, the oldest first. -/
  log : List Event := []

/-- A strand that does a job for strand `s`: on its own, or as a part of its owner. -/
def Strand.ofJob {β : Type} (program : Job → Steward Outcome) (s : Strand β) (owner : Option Nat)
    (j : Job) : Strand β where
  run := s.run
  job := some j
  owner := owner
  program := .inl <$> program j
  isWatching := owner.isSome && s.isWatching

/-- A strand comes to a stage without an answer. -/
inductive Strand.Enters {β : Type} (s : Strand β) : Strand.Stage → Prop
  | running (isIdle : s.stage = .idle) : s.Enters .running
  | waiting {v : Wait} {next : Option v.Answer → Steward (Outcome ⊕ β)}
    (runs : s.stage = .running) (asks : s.program = .ask (.wait v) next)
    (simple : ∀ jobs, v ≠ .all jobs) : s.Enters (.waiting [])
  | halted {next : Empty → Steward (Outcome ⊕ β)} (runs : s.stage = .running)
    (asks : s.program = .ask .halt next) : s.Enters (.waiting [])
  | ended {x : Outcome ⊕ β} (runs : s.stage = .running) (ends : s.program = .done x) :
    s.Enters .ended

/-- Who begins to wait for jobs has parts, and does not come to it in this way. -/
theorem Strand.Enters.ne_all {β : Type} {s : Strand β} {stage : Strand.Stage} {parts : List Nat}
    {jobs : List Job} {next : Option (List Outcome) → Steward (Outcome ⊕ β)}
    (h : s.Enters stage) (hstage : stage = .waiting parts) : s.program ≠ .ask (.wait (.all jobs)) next := by
  intro hall
  cases h with
  | waiting _ asks simple =>
    rw [asks] at hall
    cases hall
    exact simple jobs rfl
  | halted _ asks =>
    rw [asks] at hall
    cases hall
  | running | ended => cases hstage

namespace Weave

variable {β : Type}

/-- Main programs before any of them has begun. -/
def start (mains : List (Steward β)) : Weave β where
  strands := mains.zipIdx.map fun (p, i) => { run := i, program := .inr <$> p }

/-! ### Looking at a weave -/

/-- The requests of a strand and their answers. -/
def path (w : Weave β) (i : Nat) : List Happening :=
  (w.log.filter (·.strand == i)).map fun e => ⟨e.act, e.answer⟩

/-- What came of a job that has ended. -/
def outcome? (w : Weave β) (i : Nat) : Option Outcome :=
  (w.strands[i]?.bind Strand.result?).bind Sum.getLeft?

/-- What came of a main program that has ended. -/
def returned (w : Weave β) (i : Nat) : Option β :=
  (w.strands[i]?.bind Strand.result?).bind Sum.getRight?

/-! ### Changes -/

/-- Puts a strand in its place. -/
def put (w : Weave β) (i : Nat) (s : Strand β) : Weave β :=
  { w with strands := w.strands.set i s }

/-- A strand goes on with the answer to a request, which is noted. -/
def resume (w : Weave β) (i : Nat) (s : Strand β) (a : Act) (next : a.Answer → Steward (Outcome ⊕ β))
    (answer : a.Answer) : Weave β :=
  { w.put i { s with program := next answer, isWatching := a.watching s.isWatching answer
                     stage := .running } with
    log := w.log ++ [{ strand := i, run := s.run, act := a, answer }] }

/-- Whether a request other than a wait can get an answer. -/
def Fits (w : Weave β) : (a : Act) → a.Answer → Prop
  | .slots a, answer => answer = (w.slots.apply none a).1.1
  | .locks a, answer => answer = (w.locks.apply () a).1.1
  | .newPermits _, answer => answer = w.permits.size
  | .spawn _, answer => answer = w.strands.length
  | .wait _, _ => False
  | _, _ => True

/-- What a request of strand `s` changes besides the strand. -/
def serve (w : Weave β) (program : Job → Steward Outcome) (s : Strand β) : Act → Weave β
  | .slots a => { w with slots := (w.slots.apply none a).2 }
  | .locks a => { w with locks := (w.locks.apply () a).2 }
  | .newPermits n => { w with permits := w.permits.push { free := n } }
  | .givePermit p => { w with permits := w.permits.modify p fun q => q.giveBack.2 }
  | .spawn j => { w with strands := w.strands ++ [s.ofJob program none j] }
  | _ => w

/-! ### Waits -/

/-- Gets strand `i` in line for what it waits for. -/
def enter (w : Weave β) (i : Nat) : Wait → Weave β
  | .slot c => { w with slots := (w.slots.enter c i).2 }
  | .lock c => { w with locks := (w.locks.enter c i).2 }
  | .permit p => { w with permits := w.permits.modify p fun q => (q.take i).2 }
  | .sleep _ | .join _ | .all _ => w

/-- Whether the wait of strand `i` can be over with an answer. The parts of a strand are looked at
on their own. -/
def IsOver (w : Weave β) (i : Nat) : (v : Wait) → v.Answer → Prop
  | .sleep _, _ => True
  | .slot c, _ => i ∉ w.slots.line c
  | .lock c, _ => i ∉ w.locks.line c
  | .permit p, _ => ∀ q ∈ w.permits[p]?, i ∉ q.waiting
  | .join f, o => w.outcome? f = some o
  | .all _, _ => False

/-- Gives up the wait of strand `i`, and passes on what it was for if that was given already. -/
def withdraw (w : Weave β) (i : Nat) : Wait → Weave β
  | .slot c => { w with slots := if i ∈ w.slots.line c then w.slots.withdraw c i
                                 else (w.slots.leave c).2 }
  | .lock c => { w with locks := if i ∈ w.locks.line c then w.locks.withdraw c i
                                 else (w.locks.leave c).2 }
  | .permit p => { w with permits := w.permits.modify p fun q =>
      if i ∈ q.waiting then q.withdraw i else q.giveBack.2 }
  | .sleep _ | .join _ | .all _ => w

/-- The numbers of the next strands. -/
def fresh (w : Weave β) (n : Nat) : List Nat := List.range' w.strands.length n

/-- Begins to wait for jobs as parts of strand `i`. -/
def divide (w : Weave β) (program : Job → Steward Outcome) (i : Nat) (s : Strand β)
    (jobs : List Job) : Weave β :=
  { w with
    strands := (w.strands ++ jobs.map (s.ofJob program (some i))).set i
      { s with stage := .waiting (w.fresh jobs.length) } }

/-! ### What steps lead to -/

/-- What steps of one kind lead to. -/
inductive Leads (S : Weave β → Weave β → Prop) (w : Weave β) : Weave β → Prop
  | refl : Leads S w w
  | step {v u : Weave β} (reach : Leads S w v) (step : S v u) : Leads S w u

/-! ### Frame lemmas -/

variable {program : Job → Steward Outcome} {w u : Weave β} {i j : Nat} {s t : Strand β}

@[simp] theorem strands_put : (w.put i s).strands = w.strands.set i s := rfl
@[simp] theorem log_put : (w.put i s).log = w.log := rfl
@[simp] theorem slots_put : (w.put i s).slots = w.slots := rfl

section Resume

variable {a : Act} {next : a.Answer → Steward (Outcome ⊕ β)} {answer : a.Answer}

@[simp] theorem strands_resume : (w.resume i s a next answer).strands =
    w.strands.set i { s with program := next answer
                             isWatching := a.watching s.isWatching answer, stage := .running } := rfl
@[simp] theorem log_resume : (w.resume i s a next answer).log =
    w.log ++ [{ strand := i, run := s.run, act := a, answer }] := rfl
@[simp] theorem slots_resume : (w.resume i s a next answer).slots = w.slots := rfl

end Resume

@[simp] theorem log_serve (a : Act) : (w.serve program s a).log = w.log := by
  cases a <;> rfl

@[simp] theorem strands_enter (v : Wait) : (w.enter i v).strands = w.strands := by
  cases v <;> rfl

@[simp] theorem log_enter (v : Wait) : (w.enter i v).log = w.log := by
  cases v <;> rfl

@[simp] theorem strands_withdraw (v : Wait) : (w.withdraw i v).strands = w.strands := by
  cases v <;> rfl

@[simp] theorem log_withdraw (v : Wait) : (w.withdraw i v).log = w.log := by
  cases v <;> rfl

/-- A request starts at most one strand, and only if it says so. -/
theorem strands_serve (a : Act) : (w.serve program s a).strands = w.strands ∨
    ∃ j, a = .spawn j ∧
      (w.serve program s a).strands = w.strands ++ [s.ofJob program none j] := by
  cases a with
  | spawn j => exact .inr ⟨j, rfl, rfl⟩
  | _ => exact .inl rfl

/-! ### What a step does -/

/-- The jobs that strands wait for are under way, in their order. -/
def Divided (w : Weave β) : Prop :=
  ∀ i s parts jobs next, w.strands[i]? = some s → s.stage = .waiting parts →
    s.program = .ask (.wait (.all jobs)) next →
    ∃ base, parts = List.range' base jobs.length ∧ ∀ n j, jobs[n]? = some j →
      ∃ t, w.strands[base + n]? = some t ∧ t.job = some j ∧ t.owner = some i ∧ t.run = s.run

/-- What a step does to strands and log. -/
inductive Turn (program : Job → Steward Outcome) (w u : Weave β) : Prop
  | stage {i : Nat} {s : Strand β} {stage : Strand.Stage} (here : w.strands[i]? = some s)
    (strands : u.strands = w.strands.set i { s with stage }) (log : u.log = w.log)
    (enters : s.Enters stage)
  | divide {i : Nat} {s : Strand β} {jobs : List Job}
    {next : Option (List Outcome) → Steward (Outcome ⊕ β)} (here : w.strands[i]? = some s)
    (asks : s.program = .ask (.wait (.all jobs)) next)
    (strands : u.strands = (w.divide program i s jobs).strands) (log : u.log = w.log)
  | answer {i : Nat} {s : Strand β} {a : Act} {next : a.Answer → Steward (Outcome ⊕ β)}
    {answer : a.Answer} {v : Weave β} (here : w.strands[i]? = some s)
    (asks : s.program = .ask a next) (resumes : u = v.resume i s a next answer)
    (possible : w.Divided → a.CanGet s.isWatching answer)
    (strands : v.strands = w.strands ∨
      ∃ j, a = .spawn j ∧ v.strands = w.strands ++ [s.ofJob program none j])
    (log : v.log = w.log)

/-- A request that is no wait can get every answer. -/
theorem canGet_of_fits {a : Act} {answer : a.Answer} {b : Bool} (h : w.Fits a answer) :
    a.CanGet b answer := by
  cases a with
  | wait v => exact h.elim
  | _ => trivial

theorem canGet_of_isOver {v : Wait} {answer : v.Answer} {b : Bool} (h : w.IsOver i v answer) :
    (Act.wait v).CanGet b (some answer) := by
  cases v with
  | all jobs => exact h.elim
  | _ => trivial

/-- The parts of a strand have as many outcomes as there were jobs. -/
theorem Divided.canGet_of_ended {parts : List Nat} {jobs : List Job} {outcomes : List Outcome}
    {next : Option (List Outcome) → Steward (Outcome ⊕ β)} {b : Bool} (hw : w.Divided)
    (here : w.strands[i]? = some s) (waits : s.stage = .waiting parts)
    (asks : s.program = .ask (.wait (.all jobs)) next)
    (ended : parts.map w.outcome? = outcomes.map some) :
    (Act.wait (.all jobs)).CanGet b (some outcomes) := by
  obtain ⟨base, hparts, -⟩ := hw _ _ _ _ _ here waits asks
  have hlen := congrArg List.length ended
  rw [List.length_map, List.length_map, hparts, List.length_range'] at hlen
  exact hlen.symm

/-! ### Strands before and after a step -/

theorem path_congr (h : u.log = w.log) (j : Nat) : u.path j = w.path j := by
  rw [path, path, h]

theorem path_resume_self {a : Act} {next : a.Answer → Steward (Outcome ⊕ β)} {answer : a.Answer} :
    (w.resume i s a next answer).path i = w.path i ++ [⟨a, answer⟩] := by
  simp [path]

theorem path_resume_of_ne {a : Act} {next : a.Answer → Steward (Outcome ⊕ β)} {answer : a.Answer}
    (h : j ≠ i) : (w.resume i s a next answer).path j = w.path j := by
  simp [path, Ne.symm h]

/-- An answer is one more step on the path of the strand that gets it. -/
theorem path_append {e : Event} (hlog : u.log = w.log ++ [e]) :
    u.path j = if e.strand = j then w.path j ++ [⟨e.act, e.answer⟩] else w.path j := by
  rw [path, path, hlog, List.filter_append, List.map_append]
  by_cases h : e.strand = j <;> simp [h]

/-- A strand in a place that was changed is the new one, or stands in another place. -/
theorem getElem?_set_cases {l : List (Strand β)} (h : (l.set i s)[j]? = some t) :
    (j = i ∧ t = s) ∨ (j ≠ i ∧ l[j]? = some t) := by
  by_cases hj : j = i
  · subst hj
    rw [List.getElem?_set_self'] at h
    cases hl : l[j]? with
    | none => rw [hl] at h; cases h
    | some x =>
      rw [hl] at h
      cases h
      exact .inl ⟨rfl, rfl⟩
  · rw [List.getElem?_set_ne (Ne.symm hj)] at h
    exact .inr ⟨hj, h⟩

/-- A strand of a longer list is one from before, or one of those that were added. -/
theorem getElem?_append_cases {l m : List (Strand β)} (h : (l ++ m)[j]? = some t) :
    l[j]? = some t ∨ (l.length ≤ j ∧ t ∈ m) := by
  by_cases hj : j < l.length
  · rw [List.getElem?_append_left hj] at h
    exact .inl h
  · rw [List.getElem?_append_right (Nat.not_lt.mp hj)] at h
    exact .inr ⟨Nat.not_lt.mp hj, List.mem_of_getElem? h⟩

theorem lt_of_here (h : w.strands[i]? = some s) : i < w.strands.length :=
  (List.getElem?_eq_some_iff.mp h).1

/-- All requests were made by strands of the weave. -/
def Numbered (w : Weave β) : Prop := ∀ e ∈ w.log, e.strand < w.strands.length

theorem Numbered.path_eq_nil (h : w.Numbered) (hj : w.strands.length ≤ j) : w.path j = [] := by
  rw [path, List.map_eq_nil_iff, List.filter_eq_nil_iff]
  intro e he
  simpa using Nat.ne_of_lt (Nat.lt_of_lt_of_le (h e he) hj)

/-- Strands are never given up. -/
theorem Turn.length_le (h : Turn program w u) : w.strands.length ≤ u.strands.length := by
  cases h with
  | stage _ hs _ _ => exact Nat.le_of_eq (by rw [hs, List.length_set])
  | divide _ _ hs _ => simp [hs, Weave.divide]
  | answer _ _ resumes _ strands _ =>
    obtain hs | ⟨_, -, hs⟩ := strands <;> simp [resumes, hs]

theorem Numbered.turn (hw : w.Numbered) (h : Turn program w u) : u.Numbered := by
  intro e he
  have hle := h.length_le
  cases h with
  | stage _ _ hl _ => exact Nat.lt_of_lt_of_le (hw e (hl ▸ he)) hle
  | divide _ _ _ hl => exact Nat.lt_of_lt_of_le (hw e (hl ▸ he)) hle
  | answer here _ resumes _ _ log =>
    rw [resumes, log_resume, log, List.mem_append, List.mem_singleton] at he
    obtain he | rfl := he
    · exact Nat.lt_of_lt_of_le (hw e he) hle
    · exact Nat.lt_of_lt_of_le (lt_of_here here) hle

theorem Leads.numbered {S : Weave β → Weave β → Prop} {mains : List (Steward β)}
    (h : Leads S (start mains) w) (hS : ∀ v u, S v u → Turn program v u) : w.Numbered := by
  induction h with
  | refl => exact fun _ h => nomatch h
  | step _ hstep ih => exact ih.turn (hS _ _ hstep)

theorem start_here {mains : List (Steward β)} (h : (start mains).strands[i]? = some s) :
    ∃ p, mains[i]? = some p ∧ s = { run := i, program := .inr <$> p } := by
  rw [start, List.getElem?_map, Option.map_eq_some_iff] at h
  obtain ⟨⟨p, k⟩, hp, rfl⟩ := h
  rw [List.getElem?_zipIdx, Option.map_eq_some_iff] at hp
  obtain ⟨q, hq, heq⟩ := hp
  obtain ⟨rfl, hk⟩ := Prod.mk.inj heq
  rw [Nat.zero_add] at hk
  subst hk
  exact ⟨q, hq, rfl⟩

/-- A strand stays what it is. -/
theorem Turn.same (h : Turn program w u) (ht : w.strands[j]? = some t) :
    ∃ t', u.strands[j]? = some t' ∧ t'.job = t.job ∧ t'.owner = t.owner ∧ t'.run = t.run := by
  have hset : ∀ {l : List (Strand β)} {i : Nat} {s s' : Strand β}, l[i]? = some s →
      s'.job = s.job → s'.owner = s.owner → s'.run = s.run → l[j]? = some t →
      ∃ t', (l.set i s')[j]? = some t' ∧ t'.job = t.job ∧ t'.owner = t.owner ∧ t'.run = t.run := by
    intro l i s s' hs hjob howner hrun hl
    by_cases hij : i = j
    · subst hij
      rw [hs] at hl
      cases hl
      exact ⟨s', by rw [List.getElem?_set_self (List.getElem?_eq_some_iff.mp hs).1], hjob, howner,
        hrun⟩
    · exact ⟨t, by rw [List.getElem?_set_ne hij, hl], rfl, rfl, rfl⟩
  have happ : ∀ {l m : List (Strand β)} {k : Nat} {x : Strand β}, l[k]? = some x →
      (l ++ m)[k]? = some x := fun hl => by
    rw [List.getElem?_append_left (List.getElem?_eq_some_iff.mp hl).1, hl]
  cases h with
  | stage here hs _ _ =>
    rw [hs]
    exact hset here rfl rfl rfl ht
  | divide here _ hs _ =>
    rw [hs]
    exact hset (happ here) rfl rfl rfl (happ ht)
  | answer here _ resumes _ strands _ =>
    rw [resumes, strands_resume]
    obtain hs | ⟨_, -, hs⟩ := strands
    · rw [hs]
      exact hset here rfl rfl rfl ht
    · rw [hs]
      exact hset (happ here) rfl rfl rfl (happ ht)

/-- Where a strand comes from: it was there before, is a part of another one or was started. -/
inductive Origin (w : Weave β) (j : Nat) (t : Strand β) : Prop
  | old {s : Strand β} (here : w.strands[j]? = some s) (job : t.job = s.job)
    (owner : t.owner = s.owner) (run : t.run = s.run)
  | part {i : Nat} {s : Strand β} {jobs : List Job}
    {next : Option (List Outcome) → Steward (Outcome ⊕ β)} {job : Job}
    (here : w.strands[i]? = some s) (asks : s.program = .ask (.wait (.all jobs)) next)
    (mem : job ∈ jobs) (new : w.strands.length ≤ j) (isIdle : t.stage = .idle)
    (job : t.job = some job) (owner : t.owner = some i) (run : t.run = s.run)
  | started {i : Nat} {s : Strand β} {next : Nat → Steward (Outcome ⊕ β)} {job : Job}
    (here : w.strands[i]? = some s) (asks : s.program = .ask (.spawn job) next)
    (new : w.strands.length ≤ j) (isIdle : t.stage = .idle) (job : t.job = some job)
    (owner : t.owner = none) (run : t.run = s.run)

theorem Turn.origin (h : Turn program w u) (ht : u.strands[j]? = some t) : w.Origin j t := by
  cases h with
  | stage here hs _ _ =>
    rw [hs] at ht
    obtain ⟨rfl, rfl⟩ | ⟨-, ht⟩ := getElem?_set_cases ht
    · exact .old here rfl rfl rfl
    · exact .old ht rfl rfl rfl
  | divide here asks hs _ =>
    rw [hs] at ht
    obtain ⟨rfl, rfl⟩ | ⟨-, ht⟩ := getElem?_set_cases ht
    · exact .old here rfl rfl rfl
    · obtain ht | ⟨hlen, hmem⟩ := getElem?_append_cases ht
      · exact .old ht rfl rfl rfl
      · obtain ⟨job, hjob, rfl⟩ := List.mem_map.mp hmem
        exact .part here asks hjob hlen rfl rfl rfl rfl
  | answer here asks resumes _ strands _ =>
    subst resumes
    obtain ⟨rfl, rfl⟩ | ⟨-, hold⟩ := getElem?_set_cases ht
    · exact .old here rfl rfl rfl
    · obtain hs | ⟨job, rfl, hs⟩ := strands
      · exact .old (hs ▸ hold) rfl rfl rfl
      · rw [hs] at hold
        obtain hold | ⟨hlen, hmem⟩ := getElem?_append_cases hold
        · exact .old hold rfl rfl rfl
        · rw [List.mem_singleton] at hmem
          subst hmem
          exact .started here asks hlen rfl rfl rfl rfl

/-- A strand without a job is a main program, which is its own run. -/
theorem Leads.main {S : Weave β → Weave β → Prop} {mains : List (Steward β)}
    (h : Leads S (start mains) w) (hS : ∀ v u, S v u → Turn program v u)
    (here : w.strands[i]? = some s) (hmain : s.job = none) :
    s.run = i ∧ s.owner = none ∧ i < mains.length := by
  induction h generalizing i s with
  | refl =>
    obtain ⟨q, hq, rfl⟩ := start_here here
    exact ⟨rfl, rfl, (List.getElem?_eq_some_iff.mp hq).1⟩
  | step _ hstep ih =>
    cases (hS _ _ hstep).origin here with
    | old here job owner run =>
      rw [run, owner]
      exact ih here (job ▸ hmain)
    | part _ _ _ _ _ job => cases hmain.symm.trans job
    | started _ _ _ _ job => cases hmain.symm.trans job

/-- A main program stays in its place. -/
theorem Leads.main_here {S : Weave β → Weave β → Prop} {mains : List (Steward β)} {q : Steward β}
    (h : Leads S (start mains) w) (hS : ∀ v u, S v u → Turn program v u)
    (hq : mains[i]? = some q) : ∃ s, w.strands[i]? = some s ∧ s.job = none ∧ s.run = i := by
  induction h with
  | refl => exact ⟨{ run := i, program := .inr <$> q }, by simp [start, hq], rfl, rfl⟩
  | step _ hstep ih =>
    obtain ⟨s, here, hjob, hrun⟩ := ih
    obtain ⟨t, ht, hjob', -, hrun'⟩ := (hS _ _ hstep).same here
    exact ⟨t, ht, hjob'.trans hjob, hrun'.trans hrun⟩

theorem Divided.turn (hw : w.Divided) (h : Turn program w u) : u.Divided := by
  intro j t parts jobs next ht hstage hasks
  -- the jobs of a strand that waited before are still there
  have hold : w.strands[j]? = some t → ∃ base, parts = List.range' base jobs.length ∧
      ∀ n job, jobs[n]? = some job → ∃ t', u.strands[base + n]? = some t' ∧ t'.job = some job ∧
        t'.owner = some j ∧ t'.run = t.run := by
    intro hj
    obtain ⟨base, hparts, hjobs⟩ := hw j t parts jobs next hj hstage hasks
    refine ⟨base, hparts, fun n job hn => ?_⟩
    obtain ⟨x, hx, hjob, howner, hrun⟩ := hjobs n job hn
    obtain ⟨x', hx', hjob', howner', hrun'⟩ := h.same hx
    exact ⟨x', hx', hjob'.trans hjob, howner'.trans howner, hrun'.trans hrun⟩
  cases h with
  | stage here hs _ enters =>
    rw [hs] at ht
    obtain ⟨rfl, rfl⟩ | ⟨-, ht⟩ := getElem?_set_cases ht
    · exact absurd hasks (enters.ne_all hstage)
    · exact hold ht
  | @divide i s jobs' next' here asks hs _ =>
    rw [hs] at ht
    obtain ⟨rfl, rfl⟩ | ⟨-, ht'⟩ := getElem?_set_cases ht
    · have hsame : jobs' = jobs := by
        rw [asks] at hasks
        cases hasks
        rfl
      subst hsame
      cases hstage
      refine ⟨_, rfl, fun n job hn => ?_⟩
      refine ⟨s.ofJob program (some j) job, ?_, rfl, rfl, rfl⟩
      have hne : j ≠ w.strands.length + n := Nat.ne_of_lt (Nat.lt_add_right n (lt_of_here here))
      rw [hs, Weave.divide, List.getElem?_set_ne hne, List.getElem?_append_right (Nat.le_add_right _ _),
        Nat.add_sub_cancel_left, List.getElem?_map, hn]
      rfl
    · obtain ht' | ⟨-, hmem⟩ := getElem?_append_cases ht'
      · exact hold ht'
      · obtain ⟨_, -, rfl⟩ := List.mem_map.mp hmem
        cases hstage
  | @answer i s a next' answer v here asks resumes possible strands log =>
    subst resumes
    obtain ⟨rfl, rfl⟩ | ⟨-, ht'⟩ := getElem?_set_cases ht
    · cases hstage
    · obtain hs | ⟨_, -, hs⟩ := strands
      · rw [hs] at ht'
        exact hold ht'
      · rw [hs] at ht'
        obtain ht' | ⟨-, hmem⟩ := getElem?_append_cases ht'
        · exact hold ht'
        · rw [List.mem_singleton] at hmem
          subst hmem
          cases hstage

theorem Leads.divided {S : Weave β → Weave β → Prop} {mains : List (Steward β)}
    (h : Leads S (start mains) w) (hS : ∀ v u, S v u → Turn program v u) : w.Divided := by
  induction h with
  | refl =>
    intro i s parts jobs next hs hstage _
    obtain ⟨p, -, rfl⟩ := start_here hs
    cases hstage
  | step _ hstep ih => exact ih.turn (hS _ _ hstep)

/-! ### What was answered when -/

/-- A step notes one answer at most. -/
theorem Turn.log_cases (h : Turn program w u) : u.log = w.log ∨
    ∃ (e : Event) (s : Strand β) (next : e.act.Answer → Steward (Outcome ⊕ β)),
      u.log = w.log ++ [e] ∧ w.strands[e.strand]? = some s ∧ s.run = e.run ∧
        s.program = .ask e.act next := by
  cases h with
  | stage _ _ log _ => exact .inl log
  | divide _ _ _ log => exact .inl log
  | @answer i s a next answer v here asks resumes _ _ log =>
    refine .inr ⟨⟨i, s.run, a, answer⟩, s, next, ?_, here, rfl, asks⟩
    rw [resumes, log_resume, log]

/-- Every answer was given in a weave that knew of the earlier ones, to a strand that had asked. -/
theorem Leads.event {S : Weave β → Weave β → Prop} {v : Weave β} {pre post : List Event} {e : Event}
    (h : Leads S v w) (hS : ∀ v u, S v u → Turn program v u) (hv : v.log = [])
    (hlog : w.log = pre ++ e :: post) :
    ∃ (u : Weave β) (s : Strand β) (next : e.act.Answer → Steward (Outcome ⊕ β)),
      Leads S v u ∧ u.log = pre ∧ u.strands[e.strand]? = some s ∧ s.run = e.run ∧
        s.program = .ask e.act next := by
  induction h generalizing pre post with
  | refl =>
    rw [hv] at hlog
    cases pre <;> cases hlog
  | @step w u reach step ih =>
    obtain hsame | ⟨e', s, next, hnew, here, hrun, hasks⟩ := (hS _ _ step).log_cases
    · exact ih (hsame.symm.trans hlog)
    · rw [hnew] at hlog
      obtain ⟨hpre, hlast⟩ | ⟨post', hpost, hlast⟩ : (pre = w.log ∧ e = e') ∨
          ∃ post', w.log = pre ++ e :: post' ∧ post = post' ++ [e'] := by
        cases hp : post.getLast? with
        | none =>
          rw [List.getLast?_eq_none_iff] at hp
          subst hp
          obtain ⟨h, h'⟩ := List.append_inj' hlog rfl
          cases h'
          exact .inl ⟨h.symm, rfl⟩
        | some x =>
          obtain ⟨post', rfl⟩ := List.getLast?_eq_some_iff.mp hp
          rw [← List.cons_append, ← List.append_assoc] at hlog
          obtain ⟨h, h'⟩ := List.append_inj' hlog rfl
          cases h'
          exact .inr ⟨post', h, rfl⟩
      · subst hpre hlast
        exact ⟨w, s, next, reach, rfl, here, hrun, hasks⟩
      · exact ih hpost

/-- Whatever the log begins with was the whole log once. -/
theorem Leads.earlier {S : Weave β → Weave β → Prop} {v : Weave β} {first last : List Event}
    (h : Leads S v w) (hS : ∀ v u, S v u → Turn program v u) (hv : v.log = [])
    (hlog : w.log = first ++ last) : ∃ u : Weave β, Leads S v u ∧ u.log = first := by
  cases last with
  | nil => exact ⟨w, h, hlog.trans (List.append_nil first)⟩
  | cons e post =>
    obtain ⟨u, _, _, hlead, hu, -⟩ := h.event hS hv hlog
    exact ⟨u, hlead, hu⟩

end Weave

end CertSteward
