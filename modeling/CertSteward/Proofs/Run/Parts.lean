import CertSteward.Proofs.Run.Attendance

/-!
# A main program and its parts

While the main program waits for parts of itself, they are polled in their order. Parts that do not
wait come to their ends one after the other, each in the surroundings that the one before it has
left, just as if one program had been made of theirs.

## Main definitions

* `Machine.Gathers` — the main program waits for its parts, and some are still to be polled

## Main results

* `Yields.parts` — parts that do not wait are as one program
-/

namespace CertSteward

/-- A part of a fiber, before its start. -/
def Fiber.part (fiber : Fiber) (p : Steward Outcome) : Fiber :=
  { task := fiber.task, token := fiber.token, isWatching := fiber.isWatching, state := .ready p }

namespace Machine

variable {m : Machine} {w' : World} {f g : Nat}

/-- The main program waits for its parts, of which those with a job of `todo` are still to be
polled. -/
structure Gathers (m : Machine) (todo : List (Nat × Job)) (parts : List Nat) (jobs : List Job) :
    Prop where
  agenda : m.agenda = todo.map (fun x => .poll x.1) ++ [.collect 0]
  queue : m.queue = []
  timers : m.timers = []
  unwoken : m.isMainWoken = false
  main : ∃ fiber : Fiber, m.fibers[0]? = some fiber ∧ fiber.task = 0 ∧
    fiber.isWatching = false ∧ fiber.parts = parts ∧
    fiber.state = .waiting (.wait (.all jobs)) (mainWait (.wait (.all jobs))) false
  nodup : (todo.map (·.1)).Nodup
  ready : ∀ x ∈ todo, x.1 ≠ 0 ∧ ∃ fiber : Fiber, m.fibers[x.1]? = some fiber ∧
    fiber.isWatching = false ∧ fiber.state = .ready (m.program x.2)
  others : ∀ (f : Nat) (fiber : Fiber), f ≠ 0 → f ∉ todo.map (·.1) → m.fibers[f]? = some fiber →
    ∃ o, fiber.state = .finished o

namespace Gathers

variable {todo : List (Nat × Job)} {parts : List Nat} {jobs : List Job} {j : Job} {o : Outcome}

theorem outcome?_main (h : m.Gathers todo parts jobs) : m.outcome? 0 = none := by
  obtain ⟨fiber, hfiber, -, -, -, hstate⟩ := h.main
  rw [outcome?_of_state hfiber, hstate]

/-- Nobody waits for the end of a part by itself. -/
theorem not_joins (h : m.Gathers todo parts jobs) {fiber : Fiber}
    (hfiber : m.fibers[f]? = some fiber) :
    joins fiber g = false := by
  by_cases hf : f = 0
  · subst hf
    obtain ⟨main, hmain, -, -, -, hstate⟩ := h.main
    obtain rfl : main = fiber := Option.some.inj (hmain.symm.trans hfiber)
    rw [joins, hstate]
  · by_cases htodo : f ∈ todo.map (·.1)
    · obtain ⟨x, hx, rfl⟩ := List.mem_map.mp htodo
      obtain ⟨-, part, hpart, -, hstate⟩ := h.ready x hx
      obtain rfl : part = fiber := Option.some.inj (hpart.symm.trans hfiber)
      rw [joins, hstate]
    · obtain ⟨o, ho⟩ := h.others f fiber hf htodo hfiber
      exact joins_of_finished ho

/-- The part that is polled next comes to its end. -/
theorem step (h : m.Gathers ((g, j) :: todo) parts jobs)
    (heval : m.world.eval? (m.program j) = some (o, w')) :
    ∃ m' : Machine, Leads 1 m m' ∧ m'.Gathers todo parts jobs ∧ m'.world = w' ∧
      m'.program = m.program ∧ m'.outcome? g = some o ∧
      ∀ f, f ≠ g → m'.outcome? f = m.outcome? f := by
  obtain ⟨hpos, part, hpart, hunwatched, hready⟩ := h.ready _ List.mem_cons_self
  obtain ⟨hnotin, hnodup⟩ := List.nodup_cons.mp h.nodup
  let polled : Machine := { m with agenda := todo.map (fun x => .poll x.1) ++ [.collect 0] }
  let ended : Machine := (polled.within w').modify g fun fiber =>
    { fiber with state := .finished o }
  have hsame : ∀ f, f ≠ g → ended.fibers[f]? = m.fibers[f]? := fun f hf => by
    rw [getElem?_modify, if_neg (Ne.symm hf)]
    rfl
  have hended : ended.fibers[g]? = some { part with state := .finished o } := by
    rw [getElem?_modify, if_pos rfl]
    exact congrArg _ hpart
  have hvisit : polled.visit (.poll g) = ended := by
    have hpart' : polled.fibers[g]? = some part := hpart
    rw [visit, hpart']
    simp only [hready]
    have hrun := runFiber_of_eval? (m := polled)
      (isUnwatched_of_fiber hpart' hunwatched).not_isInterrupted heval .done
    rw [Program.bind_done] at hrun
    rw [hrun]
    exact finish_of_not_joined fun f fiber _ hfiber => h.not_joins hfiber
  have hstep : m.step = some (polled.visit (.poll g)) := by
    rw [Machine.step, h.agenda]
    rfl
  refine ⟨ended, leads_of_step h.outcome?_main (hvisit ▸ hstep), ?_, rfl, rfl, ?_, ?_⟩
  · obtain ⟨main, hmain, hrest⟩ := h.main
    refine ⟨rfl, h.queue, h.timers, h.unwoken, ⟨main, ?_, hrest⟩, hnodup, fun x hx => ?_,
      fun f fiber hf hnot hfiber => ?_⟩
    · rw [hsame 0 (Ne.symm hpos)]
      exact hmain
    · obtain ⟨hx0, fiber, hfiber, hstate⟩ := h.ready x (List.mem_cons_of_mem _ hx)
      refine ⟨hx0, fiber, ?_, hstate⟩
      rw [hsame x.1 fun heq => hnotin (List.mem_map.mpr ⟨x, hx, heq⟩)]
      exact hfiber
    · by_cases hfg : f = g
      · subst hfg
        rw [hended] at hfiber
        exact ⟨o, by rw [← Option.some.inj hfiber]⟩
      · rw [hsame f hfg] at hfiber
        exact h.others f fiber hf (fun hmem => (List.mem_cons.mp hmem).elim hfg hnot) hfiber
  · rw [outcome?_of_state hended]
  · intro f hf
    rw [outcome?, outcome?, hsame f hf]

/-- The parts that are still to be polled come to their ends. -/
theorem run (h : m.Gathers todo parts jobs) {os : List Outcome}
    (heval : m.world.eval? ((todo.map (·.2)).mapM m.program) = some (os, w')) :
    ∃ m' : Machine, Leads todo.length m m' ∧ m'.Gathers [] parts jobs ∧ m'.world = w' ∧
      m'.program = m.program ∧ todo.map (fun x => m'.outcome? x.1) = os.map some ∧
      ∀ f ∉ todo.map (·.1), m'.outcome? f = m.outcome? f := by
  induction todo generalizing m os with
  | nil =>
    cases heval
    exact ⟨m, Leads.refl, h, rfl, rfl, rfl, fun _ _ => rfl⟩
  | cons x todo ih =>
    obtain ⟨g, j⟩ := x
    rw [List.map_cons, List.mapM_cons, World.eval?_bind] at heval
    obtain ⟨⟨o, w₁⟩, hfirst, heval⟩ := Option.bind_eq_some_iff.mp heval
    rw [World.eval?_bind] at heval
    obtain ⟨⟨os, w₂⟩, hrest, heval⟩ := Option.bind_eq_some_iff.mp heval
    cases heval
    obtain ⟨m₁, hleads, hgathers, rfl, hprogram, hout, hothers⟩ := h.step hfirst
    rw [← hprogram] at hrest
    obtain ⟨m', hleads', hgathers', hworld', hprogram', houts, hothers'⟩ := ih hgathers hrest
    obtain ⟨hnotin, -⟩ := List.nodup_cons.mp h.nodup
    refine ⟨m', ?_, hgathers', hworld', hprogram'.trans hprogram, ?_, fun f hf => ?_⟩
    · rw [List.length_cons, Nat.add_comm]
      exact hleads.trans hleads'
    · rw [List.map_cons, List.map_cons, houts, hothers' g hnotin, hout]
    · rw [List.map_cons, List.mem_cons, not_or] at hf
      rw [hothers' f hf.2, hothers f hf.1]

/-- When the parts have come to their ends, the main program sees it and goes on. -/
theorem collects (h : m.Gathers [] parts jobs) (hparts : ∀ f ∈ parts, (m.outcome? f).isSome) :
    ∃ m' : Machine, Leads 1 m m' ∧ m'.IsIdle ∧ m'.world = m.world ∧ m'.program = m.program ∧
      m'.outcome? 0 = some .finished ∧
      m'.answerOf 0 (.all jobs) = parts.map (fun f => (m'.outcome? f).getD .interrupted) ∧
      ∀ f, f ≠ 0 → m'.outcome? f = m.outcome? f := by
  obtain ⟨main, hmain, htask, hunwatched, rfl, hstate⟩ := h.main
  let collected : Machine := { m with agenda := [] }
  let ended : Machine := collected.modify 0 fun fiber => { fiber with state := .finished .finished }
  have hsame : ∀ f, f ≠ 0 → ended.fibers[f]? = m.fibers[f]? := fun f hf => by
    rw [getElem?_modify, if_neg (Ne.symm hf)]
  have hended : ended.fibers[0]? = some { main with state := .finished .finished } := by
    rw [getElem?_modify, if_pos rfl]
    exact congrArg _ hmain
  have hvisit : collected.visit (.collect 0) = ended := by
    have hmain' : collected.fibers[0]? = some main := hmain
    have hgoes := (isUnwatched_of_fiber hmain' hunwatched).not_isInterrupted
    have hall : (main.parts.all fun f => (collected.outcome? f).isSome) = true :=
      List.all_eq_true.mpr hparts
    obtain ⟨task, token, isWatching, parts, state⟩ := main
    subst hstate
    rw [visit, hmain']
    simp only [hgoes, hall]
    refine finish_of_not_joined fun f fiber hf hfiber => ?_
    exact h.not_joins hfiber
  have hstep : m.step = some (collected.visit (.collect 0)) := by
    rw [Machine.step, h.agenda]
    rfl
  refine ⟨ended, leads_of_step h.outcome?_main (hvisit ▸ hstep),
    ⟨rfl, h.queue, h.timers, h.unwoken, ⟨_, hended, htask, hunwatched⟩, fun f fiber hfiber => ?_⟩,
    rfl, rfl, ?_, ?_, fun f hf => ?_⟩
  · by_cases hf : f = 0
    · subst hf
      rw [hended] at hfiber
      exact ⟨.finished, by rw [← Option.some.inj hfiber]⟩
    · rw [hsame f hf] at hfiber
      exact h.others f fiber hf List.not_mem_nil hfiber
  · rw [outcome?_of_state hended]
  · rw [answerOf, hended, Option.map_some, Option.getD_some]
  · rw [outcome?, outcome?, hsame f hf]

end Gathers

/-! ### The start of the parts -/

theorem addFiber_part {main : Fiber} (hmain : m.fibers[0]? = some main) (p : Steward Outcome) :
    m.addFiber 0 true p = (m.fibers.size, { m with fibers := m.fibers.push (main.part p) }) := by
  simp only [addFiber, hmain]
  rfl

theorem foldl_addFiber {main : Fiber} (hmain : m.fibers[0]? = some main) (jobs : List Job)
    (parts : List Nat) :
    (jobs.foldl (fun (m, parts) job =>
      let (part, m) := m.addFiber 0 true (m.program job)
      (m, parts ++ [part])) (m, parts)) =
    ({ m with fibers := m.fibers ++ (jobs.map fun j => main.part (m.program j)).toArray },
      parts ++ List.range' m.fibers.size jobs.length) := by
  induction jobs generalizing m parts with
  | nil => simp
  | cons j jobs ih =>
    have hpush : (m.fibers.push (main.part (m.program j)))[0]? = some main := by
      rw [Array.getElem?_push, if_neg (Nat.ne_of_lt (Array.getElem?_eq_some_iff.mp hmain).choose)]
      exact hmain
    rw [List.foldl_cons]
    dsimp only
    rw [addFiber_part hmain]
    dsimp only
    rw [ih hpush]
    simp [List.range'_succ]

/-- The machine once its main program has started a part for each job. -/
def gathering (m : Machine) (main : Fiber) (jobs : List Job) : Machine :=
  let started : Machine := { m with
    fibers := m.fibers ++ (jobs.map fun j => main.part (m.program j)).toArray }
  let parts := List.range' m.fibers.size jobs.length
  { started.modify 0 fun fiber => { fiber with parts } with
    agenda := parts.map .poll ++ [.collect 0] }

section Gathering

variable {main : Fiber} {jobs : List Job}

theorem perform_all (hmain : m.fibers[0]? = some main) (hgoes : m.isInterrupted 0 = false)
    (hagenda : m.agenda = []) (hjobs : jobs ≠ []) :
    m.perform 0 (.wait (.all jobs)) = (none, m.gathering main jobs) := by
  have hbegin : m.beginWait 0 (.all jobs) = (false, m.gathering main jobs) := by
    let parts := List.range' m.fibers.size jobs.length
    have hempty : parts.isEmpty = false := by
      rw [List.isEmpty_eq_false_iff, ← List.length_pos_iff, List.length_range']
      exact List.length_pos_iff.mpr hjobs
    rw [beginWait, foldl_addFiber hmain, List.nil_append]
    change (if parts.isEmpty then (true, _) else (false, _) : Bool × Machine) = _
    rw [hempty, hagenda]
    rfl
  rw [perform, hgoes, hbegin]
  rfl

theorem main_gathering (hmain : m.fibers[0]? = some main) :
    (m.gathering main jobs).fibers[0]? =
      some { main with parts := List.range' m.fibers.size jobs.length } := by
  obtain ⟨hpos, -⟩ := Array.getElem?_eq_some_iff.mp hmain
  exact getElem?_modify.trans ((if_pos rfl).trans
    (congrArg _ ((Array.getElem?_append_left hpos).trans hmain)))

theorem part_gathering (hpos : 0 < m.fibers.size) {i : Nat} {j : Job} (hj : jobs[i]? = some j) :
    (m.gathering main jobs).fibers[m.fibers.size + i]? = some (main.part (m.program j)) := by
  refine (getElem?_modify.trans (if_neg (by omega))).trans ?_
  rw [Array.getElem?_append_right (Nat.le_add_right _ _), Nat.add_sub_cancel_left]
  simp [hj]

theorem old_gathering (hf : f ≠ 0) (hlt : f < m.fibers.size) :
    (m.gathering main jobs).fibers[f]? = m.fibers[f]? :=
  (getElem?_modify.trans (if_neg (Ne.symm hf))).trans (Array.getElem?_append_left hlt)

theorem no_gathering (hf : f ≠ 0) (hle : m.fibers.size + jobs.length ≤ f) :
    (m.gathering main jobs).fibers[f]? = none :=
  (getElem?_modify.trans (if_neg (Ne.symm hf))).trans
    (Array.getElem?_eq_none (by simpa using hle))

/-- Who is neither the main program nor one of its new parts was there before. -/
theorem getElem?_of_gathering {fiber : Fiber} (hf : f ≠ 0)
    (hnot : f ∉ List.range' m.fibers.size jobs.length)
    (h : (m.gathering main jobs).fibers[f]? = some fiber) : m.fibers[f]? = some fiber := by
  rw [List.mem_range'_1, not_and, Nat.not_lt] at hnot
  by_cases hold : f < m.fibers.size
  · exact old_gathering hf hold ▸ h
  · rw [no_gathering hf (hnot (Nat.not_lt.mp hold))] at h
    cases h

end Gathering

/-- The main program starts its parts, if there are any. -/
theorem IsIdle.gathers (hm : m.IsIdle) {jobs : List Job} (hjobs : jobs ≠ []) :
    ∃ (parts : List Nat) (m₁ : Machine), m.perform 0 (.wait (.all jobs)) = (none, m₁) ∧
      m₁.agenda.length = jobs.length + 1 ∧ parts.length = jobs.length ∧ (∀ f ∈ parts, f ≠ 0) ∧
      m₁.world = m.world ∧ m₁.program = m.program ∧
      (m₁.modify 0 fun fiber => { fiber with
        state := .waiting (.wait (.all jobs)) (mainWait (.wait (.all jobs))) false }).Gathers
        (parts.zip jobs) parts jobs := by
  obtain ⟨main, hmain, htask, hunwatched⟩ := hm.main
  obtain ⟨hpos, -⟩ := Array.getElem?_eq_some_iff.mp hmain
  let parts := List.range' m.fibers.size jobs.length
  have hparts : parts.length = jobs.length := List.length_range'
  have hpart : ∀ f ∈ parts, f ≠ 0 := by
    intro f hf
    have hsize := (List.mem_range'_1.mp hf).1
    omega
  have hmap : (parts.zip jobs).map (·.1) = parts := List.map_fst_zip (Nat.le_of_eq hparts)
  refine ⟨parts, m.gathering main jobs,
    perform_all hmain hm.isUnwatched.not_isInterrupted hm.agenda hjobs, ?_, hparts, hpart, rfl, rfl,
    ?_, hm.queue, hm.timers, hm.unwoken, ?_, ?_, fun x hx => ?_, fun f fiber hf hnot hfiber => ?_⟩
  · simp [gathering]
  · have hpolls : (parts.zip jobs).map (fun x => Visit.poll x.1) = parts.map .poll :=
      List.map_map.symm.trans (congrArg _ hmap)
    exact congrArg (· ++ _) hpolls.symm
  · refine ⟨{ main with
      parts, state := .waiting (.wait (.all jobs)) (mainWait (.wait (.all jobs))) false }, ?_,
      htask, hunwatched, rfl, rfl⟩
    rw [getElem?_modify, if_pos rfl, main_gathering hmain]
    rfl
  · rw [hmap]
    exact List.nodup_range'
  · obtain ⟨i, hi⟩ := List.mem_iff_getElem?.mp hx
    obtain ⟨hat, hjob⟩ := List.getElem?_zip_eq_some.mp hi
    have hx0 : x.1 ≠ 0 := hpart _ (List.mem_of_getElem? hat)
    obtain ⟨hlt, hat⟩ := List.getElem?_eq_some_iff.mp hat
    rw [List.getElem_range', Nat.one_mul] at hat
    refine ⟨hx0, main.part (m.program x.2), ?_, hunwatched, rfl⟩
    rw [getElem?_modify, if_neg (Ne.symm hx0), ← hat]
    exact part_gathering hpos hjob
  · rw [hmap] at hnot
    rw [getElem?_modify, if_neg (Ne.symm hf)] at hfiber
    exact hm.finished f fiber (getElem?_of_gathering hf hnot hfiber)

/-- A main program without parts to wait for goes on at once. -/
theorem IsIdle.perform_no_parts (hm : m.IsIdle) :
    ∃ m' : Machine, m'.IsIdle ∧ m'.world = m.world ∧ m'.program = m.program ∧
      m.perform 0 (.wait (.all [])) = (some (some []), m') := by
  obtain ⟨main, hmain, -⟩ := hm.main
  refine ⟨m.modify 0 fun fiber => { fiber with parts := [] },
    hm.modify (fun _ => rfl) (fun _ h => h) fun _ => rfl, rfl, rfl, ?_⟩
  have hparts : (m.modify 0 fun fiber => { fiber with parts := [] }).fibers[0]? =
      some { main with parts := [] } := by
    rw [getElem?_modify, if_pos rfl, hmain, Option.map_some]
  have hanswer : (m.modify 0 fun fiber => { fiber with parts := [] }).answerOf 0 (.all []) =
      [] := by
    rw [answerOf, hparts]
    rfl
  rw [perform, hm.isUnwatched.not_isInterrupted, ← hanswer]
  rfl

end Machine

/-- A main program whose parts do not wait goes on with what came of them. -/
theorem Yields.parts {program : Job → Steward Outcome} {jobs : List Job} {os : List Outcome}
    {w w' : World} (heval : w.eval? (jobs.mapM program) = some (os, w')) :
    Yields program (perform (.wait (.all jobs))) w (some os) w' := by
  rintro m hm rfl rfl
  by_cases hjobs : jobs = []
  · subst hjobs
    cases heval
    obtain ⟨m', hidle, hworld, hprogram, hperform⟩ := hm.perform_no_parts
    exact ⟨m', hidle, hworld, hprogram, fun next => Machine.runMain_of_perform hperform⟩
  obtain ⟨parts, m₁, hperform, hagenda, hlength, hpos, hworld, hprogram, hgathers⟩ :=
    hm.gathers hjobs
  have hjobs : (parts.zip jobs).map (·.2) = jobs := List.map_snd_zip (Nat.le_of_eq hlength.symm)
  have hparts : (parts.zip jobs).map (·.1) = parts := List.map_fst_zip (Nat.le_of_eq hlength)
  have heval' : m₁.world.eval? (((parts.zip jobs).map (·.2)).mapM m₁.program) = some (os, w') := by
    rw [hjobs, hworld, hprogram]
    exact heval
  obtain ⟨m₂, hrun, hgathers₂, hworld₂, hprogram₂, hos, -⟩ := hgathers.run heval'
  replace hos : parts.map m₂.outcome? = os.map some :=
    (congrArg (List.map m₂.outcome?) hparts).symm.trans (List.map_map.trans hos)
  have hended : ∀ f ∈ parts, (m₂.outcome? f).isSome := by
    intro f hf
    obtain ⟨o, -, ho⟩ := List.mem_map.mp (hos ▸ List.mem_map_of_mem hf)
    rw [← ho]
    rfl
  obtain ⟨m', hcollect, hidle, hworld', hprogram', hmain, hanswer, hsame⟩ :=
    hgathers₂.collects hended
  refine ⟨m', hidle, hworld'.trans hworld₂, hprogram'.trans (hprogram₂.trans hprogram),
    fun next => ?_⟩
  have hresult : m'.answerOf 0 (.all jobs) = os := by
    calc m'.answerOf 0 (.all jobs)
      _ = parts.map fun f => (m₂.outcome? f).getD .interrupted := by
        rw [hanswer]
        exact List.map_congr_left fun f hf => by rw [hsame f (hpos f hf)]
      _ = (parts.map m₂.outcome?).map (·.getD .interrupted) := by
        rw [List.map_map]
        rfl
      _ = os := by
        rw [hos, List.map_map]
        exact List.map_id os
  have hwait := Machine.waitMain_of_leads (hrun.trans hcollect) (by
    rw [hagenda, List.length_zip, hlength, Nat.min_self]
    exact Nat.le_add_left _ _) hmain
  rw [hresult] at hwait
  change m.runMain (.ask (.wait (.all jobs)) next) = _
  rw [Machine.runMain, hperform]
  simp only [hwait]

end CertSteward
