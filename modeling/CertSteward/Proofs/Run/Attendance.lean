import CertSteward.Proofs.Run.Solo

/-!
# A main program and its job

A main program can wait for a job of its own. While it does nothing but wait, and no other job is
under way, the machine has one thing to do at a time: to poll the job, to move the clock on while
the job sleeps, and to poll the main program when the job has come to its end.

## Main definitions

* `Machine.Leads` — so many steps lead from one machine to another
* `Machine.Attends` — the main program waits for one job, which is being polled
* `Machine.Works` — what a job comes to while it is waited for

## Main results

* `Machine.Works.sleep`, `Machine.Works.bind` — jobs that sleep, and one thing after another
* `Yields.job` — a main program that starts a job and waits for it
-/

namespace CertSteward

/-- A fiber whose wait is over, if it waits. -/
def Fiber.roused (fiber : Fiber) : Fiber :=
  match fiber.state with
  | .waiting a next _ => { fiber with state := .waiting a next true }
  | _ => fiber

@[simp]
theorem Fiber.task_roused (fiber : Fiber) : fiber.roused.task = fiber.task := by
  rw [roused]
  split <;> rfl

@[simp]
theorem Fiber.isWatching_roused (fiber : Fiber) : fiber.roused.isWatching = fiber.isWatching := by
  rw [roused]
  split <;> rfl

theorem Fiber.roused_of_waiting {fiber : Fiber} {a : Act} {next : a.Answer → Steward Outcome}
    {isOver : Bool} (h : fiber.state = .waiting a next isOver) :
    fiber.roused = { fiber with state := .waiting a next true } := by
  obtain ⟨task, token, isWatching, parts, state⟩ := fiber
  subst h
  rfl

namespace Machine

variable {α β : Type} {m m' : Machine} {w' : World} {f g : Nat}

/-! ### Rounds of the machine -/

/-- So many steps lead from one machine to the other, while the main program waits. -/
def Leads (n : Nat) (m m' : Machine) : Prop := ∀ fuel, m.drain (fuel + n) = m'.drain fuel

theorem Leads.refl : Leads 0 m m := fun _ => rfl

theorem Leads.trans {n n' : Nat} {m'' : Machine} (h : Leads n m m') (h' : Leads n' m' m'') :
    Leads (n + n') m m'' := fun fuel => by
  rw [Nat.add_comm n, ← Nat.add_assoc, h, h']

theorem leads_of_step (hmain : m.outcome? 0 = none) (h : m.step = some m') : Leads 1 m m' :=
  fun fuel => by
  rw [drain, hmain, h]
  rfl

theorem outcome?_of_state {fiber : Fiber} (h : m.fibers[f]? = some fiber) :
    m.outcome? f = match fiber.state with
      | .finished o => some o
      | _ => none := by
  obtain ⟨task, token, isWatching, parts, state⟩ := fiber
  rw [outcome?, h]
  cases state <;> rfl

/-! ### Ends of waits -/

theorem endWait_eq {fiber : Fiber} (h : m.fibers[f]? = some fiber) :
    m.endWait f = (m.modify f Fiber.roused).wakeTask fiber.task := by
  change (m.modify f Fiber.roused).wake f = _
  rw [wake, getElem?_modify, if_pos rfl, h, ← Fiber.task_roused fiber]
  rfl

/-- A job whose wait ends is the next one to be polled. -/
theorem endWait_job {fiber : Fiber} (h : m.fibers[g]? = some fiber) (htask : fiber.task = g)
    (hg : g ≠ 0) (hqueue : m.queue = []) :
    m.endWait g = { m.modify g Fiber.roused with queue := [g] } := by
  have hqueue : (m.modify g Fiber.roused).queue = [] := hqueue
  rw [endWait_eq h, htask, wakeTask, if_neg hg, hqueue]
  rfl

/-- A fiber goes on when it is polled after its sleep. -/
theorem visit_of_slept {fiber : Fiber} {time : Duration} {next : Option Unit → Steward Outcome}
    (h : m.fibers[f]? = some fiber) (hunwatched : fiber.isWatching = false)
    (hstate : fiber.state = .waiting (.wait (.sleep time)) next true) :
    m.visit (.poll f) = m.runFiber f (next (some ())) := by
  have hgoes := (isUnwatched_of_fiber h hunwatched).not_isInterrupted
  obtain ⟨task, token, isWatching, parts, state⟩ := fiber
  subst hstate
  rw [visit, h]
  simp only [hgoes]
  rfl

theorem tick?_of_single {t : Timer} (h : m.timers = [t]) :
    m.tick? = some (endWait { m with
      timers := [], world.clock := max m.world.clock t.ends } t.fiber) := by
  have hends : [t].partition (fun u => decide (u.ends ≤ max m.world.clock t.ends)) = ([t], []) := by
    rw [List.partition, List.partition.loop, decide_eq_true (Nat.le_max_right _ _)]
    rfl
  rw [tick?, h]
  simp only [List.map_cons, List.map_nil, List.min?_singleton, hends, List.mergeSort_singleton,
    List.foldl_cons, List.foldl_nil]

/-! ### Waiting for one job -/

/-- The main program waits for a job, which is being polled, and nothing else is under way. -/
structure Attends (m : Machine) (g : Nat) : Prop where
  agenda : m.agenda = []
  queue : m.queue = []
  timers : m.timers = []
  unwoken : m.isMainWoken = false
  main : ∃ fiber, m.fibers[0]? = some fiber ∧ fiber.task = 0 ∧ fiber.isWatching = false ∧
    fiber.state = .waiting (.wait (.join g)) (mainWait (.wait (.join g))) false
  pos : g ≠ 0
  job : ∃ fiber, m.fibers[g]? = some fiber ∧ fiber.task = g ∧ fiber.isWatching = false
  others : ∀ f fiber, f ≠ 0 → f ≠ g → m.fibers[f]? = some fiber →
    ∃ o, fiber.state = .finished o

namespace Attends

theorem outcome?_main (h : m.Attends g) : m.outcome? 0 = none := by
  obtain ⟨fiber, hfiber, -, -, hstate⟩ := h.main
  rw [outcome?_of_state hfiber, hstate]

theorem isUnwatched (h : m.Attends g) : m.IsUnwatched g := by
  obtain ⟨fiber, hfiber, -, hunwatched⟩ := h.job
  rw [IsUnwatched, hfiber]
  exact hunwatched

/-- What the job is at does not matter. -/
theorem modify (h : m.Attends g) (change : Fiber → Fiber)
    (htask : ∀ fiber, (change fiber).task = fiber.task)
    (hwatching : ∀ fiber, (change fiber).isWatching = fiber.isWatching) :
    (m.modify g change).Attends g where
  agenda := h.agenda
  queue := h.queue
  timers := h.timers
  unwoken := h.unwoken
  main := by
    rw [getElem?_modify, if_neg h.pos]
    exact h.main
  pos := h.pos
  job := by
    obtain ⟨fiber, hfiber, hjob, hunwatched⟩ := h.job
    refine ⟨change fiber, ?_, (htask fiber).trans hjob, (hwatching fiber).trans hunwatched⟩
    rw [getElem?_modify, if_pos rfl, hfiber]
    rfl
  others f fiber hf hfg hfiber := by
    rw [getElem?_modify, if_neg (Ne.symm hfg)] at hfiber
    exact h.others f fiber hf hfg hfiber

theorem within (h : m.Attends g) (w : World) : (m.within w).Attends g :=
  ⟨h.agenda, h.queue, h.timers, h.unwoken, h.main, h.pos, h.job, h.others⟩

/-- A job that sleeps is polled again when the clock has moved on to the end of its sleep. -/
theorem wakes (h : m.Attends g) (ends : Duration) {time : Duration}
    {next : Option Unit → Steward Outcome}
    {fiber : Fiber} (hfiber : m.fibers[g]? = some fiber)
    (hstate : fiber.state = .waiting (.wait (.sleep time)) next false) :
    ∃ m' : Machine, m'.Attends g ∧
      m'.world = { m.world with clock := max m.world.clock ends } ∧ m'.program = m.program ∧
      Leads 3 { m with timers := [{ ends, fiber := g }] } (m'.runFiber g (next (some ()))) := by
  obtain ⟨fiber', hjob, htask, hunwatched⟩ := h.job
  obtain rfl : fiber = fiber' := Option.some.inj (hfiber.symm.trans hjob)
  have hafter := h.modify Fiber.roused Fiber.task_roused Fiber.isWatching_roused
  have hmain := hafter.outcome?_main
  obtain ⟨world, program, fibers, agenda, queue, isMainWoken, timers, cancelled, runs⟩ := m
  obtain rfl : agenda = [] := h.agenda
  obtain rfl : queue = [] := h.queue
  obtain rfl : isMainWoken = false := h.unwoken
  let later : World := { world with clock := max world.clock ends }
  let polled : Machine :=
    { world := later, program, fibers := fibers.modify g Fiber.roused, cancelled, runs }
  -- the clock moves on, the job is queued, and then it is polled
  have htick : Leads 1 { world, program, fibers, timers := [{ ends, fiber := g }], cancelled, runs }
      { polled with queue := [g] } := by
    refine leads_of_step h.outcome?_main ?_
    rw [step]
    simp only [Bool.false_eq_true, if_false]
    rw [tick?_of_single rfl]
    have hend := endWait_job (m := { world := later, program, fibers, cancelled, runs }) hfiber
      htask h.pos rfl
    exact congrArg (fun m => Option.map (fun m => if m.isMainWoken = true then m.pollMain else m)
      (some m)) hend
  have hqueue : Leads 1 { polled with queue := [g] } { polled with agenda := [.poll g] } :=
    leads_of_step hmain rfl
  have hpoll : Leads 1 { polled with agenda := [.poll g] }
      (polled.runFiber g (next (some ()))) := by
    refine leads_of_step hmain ?_
    have hpolled : polled.fibers[g]? = some fiber.roused :=
      (getElem?_modify (m := { world, program, fibers, cancelled, runs })).trans
        (by rw [if_pos rfl, hfiber]; rfl)
    have hroused := Fiber.roused_of_waiting hstate
    exact congrArg some (visit_of_slept (m := polled) hpolled
      (by rw [hroused]; exact hunwatched) (by rw [hroused]))
  exact ⟨polled, ⟨rfl, rfl, rfl, rfl, hafter.main, hafter.pos, hafter.job, hafter.others⟩,
    rfl, rfl, (htick.trans hqueue).trans hpoll⟩

/-- A sleep of the job is over at once, or when the clock has moved on to its end. -/
theorem sleep (h : m.Attends g) (time : Duration) (next : Option Unit → Steward Outcome) :
    ∃ n ≤ 3, ∃ m' : Machine, m'.Attends g ∧ m'.world = m.world.slept time ∧
      m'.program = m.program ∧
      Leads n (m.runFiber g (.ask (.wait (.sleep time)) next))
        (m'.runFiber g (next (some ()))) := by
  obtain ⟨fiber, hfiber, htask, hunwatched⟩ := h.job
  rw [runFiber, perform, h.isUnwatched.not_isInterrupted]
  by_cases hends : Duration.ceilMillis (m.world.clock + time) ≤ m.world.clock
  · refine ⟨0, Nat.zero_le _, m, h, ?_, rfl, ?_⟩
    · rw [World.slept, Nat.max_eq_left hends]
    rw [beginWait, if_pos hends]
    exact Leads.refl
  · rw [beginWait, if_neg hends]
    have hsleeps := h.modify (fun fiber => { fiber with
      state := .waiting (.wait (.sleep time)) next false }) (fun _ => rfl) (fun _ => rfl)
    have hjob : (m.modify g fun fiber => { fiber with
        state := .waiting (.wait (.sleep time)) next false }).fibers[g]? = some { fiber with
        state := .waiting (.wait (.sleep time)) next false } := by
      rw [getElem?_modify, if_pos rfl, hfiber]
      rfl
    obtain ⟨m', hm', hworld, hprogram, hleads⟩ :=
      hsleeps.wakes (Duration.ceilMillis (m.world.clock + time)) hjob rfl
    refine ⟨3, Nat.le_refl _, m', hm', hworld, hprogram, ?_⟩
    rw [h.timers]
    exact hleads

end Attends

/-- In such surroundings, a job that is waited for goes through the program in at most so many
steps, with this result and to those surroundings. -/
def Works (n : Nat) (p : Steward α) (w : World) (a : α) (w' : World) : Prop :=
  ∀ (m : Machine) (g : Nat), m.Attends g → m.world = w → ∀ next : α → Steward Outcome,
    ∃ n' ≤ n, ∃ m' : Machine, m'.Attends g ∧ m'.world = w' ∧ m'.program = m.program ∧
      Leads n' (m.runFiber g (p >>= next)) (m'.runFiber g (next a))

namespace Works

variable {w w'' : World} {n n' : Nat}

theorem of_eval? {p : Steward α} {a : α} (h : w.eval? p = some (a, w')) : Works 0 p w a w' := by
  rintro m g hm rfl next
  refine ⟨0, Nat.le_refl _, m.within w', hm.within w', rfl, rfl, ?_⟩
  rw [runFiber_of_eval? hm.isUnwatched.not_isInterrupted h]
  exact Leads.refl

theorem bind {p : Steward α} {q : α → Steward β} {a : α} {b : β} (h : Works n p w a w')
    (h' : Works n' (q a) w' b w'') : Works (n + n') (p >>= q) w b w'' := by
  intro m g hm hw next
  obtain ⟨k, hk, m', hm', hw', hprogram, hleads⟩ := h m g hm hw fun a => q a >>= next
  obtain ⟨k', hk', m'', hm'', hw'', hprogram', hleads'⟩ := h' m' g hm' hw' next
  refine ⟨k + k', Nat.add_le_add hk hk', m'', hm'', hw'', hprogram'.trans hprogram, ?_⟩
  rw [Program.bind_bind]
  exact hleads.trans hleads'

theorem run_bind {p : Watched α} {f : α → Watched β} {a : α} {b : Option β}
    (h : Works n p.run w (some a) w') (h' : Works n' (f a).run w' b w'') :
    Works (n + n') (p >>= f).run w b w'' := by
  change Works _ (p.run >>= _) w b w''
  exact h.bind h'

theorem mono {p : Steward α} {a : α} (h : Works n p w a w') (hn : n ≤ n') :
    Works n' p w a w' := by
  intro m g hm hw next
  obtain ⟨k, hk, hrest⟩ := h m g hm hw next
  exact ⟨k, Nat.le_trans hk hn, hrest⟩

theorem sleep (time : Duration) :
    Works 3 (pause time).run w (some ()) (w.slept time) := by
  rintro m g hm rfl next
  exact hm.sleep time next

end Works

/-! ### Ends of fibers -/

theorem foldl_eq_self {σ : Type} {f : σ → Nat → σ} {s : σ} {l : List Nat}
    (h : ∀ i ∈ l, f s i = s) : l.foldl f s = s := by
  induction l with
  | nil => rfl
  | cons i l ih =>
    rw [List.foldl_cons, h i List.mem_cons_self]
    exact ih fun j hj => h j (List.mem_cons_of_mem i hj)

theorem joins_of_finished {fiber : Fiber} {o : Outcome} (h : fiber.state = .finished o) :
    joins fiber g = false := by
  rw [joins, h]

/-- A fiber that nobody waits for ends. -/
theorem finish_of_not_joined {o : Outcome}
    (h : ∀ f fiber, f ≠ g → m.fibers[f]? = some fiber → joins fiber g = false) :
    m.finish g o = m.modify g fun fiber => { fiber with state := .finished o } := by
  refine foldl_eq_self fun f _ => if_neg ?_
  rw [Bool.not_eq_true, getElem?_modify]
  split
  · subst f
    cases m.fibers[g]? with
    | none => rfl
    | some fiber => rfl
  · rename_i hfg
    cases hf : m.fibers[f]? with
    | none => rfl
    | some fiber => exact h f fiber (Ne.symm hfg) hf

/-- A job that only the main program waits for ends, and the main program is polled next. -/
theorem finish_of_main_joins {o : Outcome} {main : Fiber} (hmain : m.fibers[0]? = some main)
    (htask : main.task = 0) (hjoins : joins main g = true) (hg : g ≠ 0)
    (h : ∀ f fiber, f ≠ 0 → f ≠ g → m.fibers[f]? = some fiber → joins fiber g = false) :
    m.finish g o = { (m.modify g fun fiber => { fiber with state := .finished o }).modify 0
      Fiber.roused with isMainWoken := true } := by
  have hpos : 0 < (m.modify g fun fiber => { fiber with state := .finished o }).fibers.size := by
    obtain ⟨hsize, -⟩ := Array.getElem?_eq_some_iff.mp hmain
    simpa [modify] using hsize
  have hmain' : (m.modify g fun fiber => { fiber with state := .finished o }).fibers[0]? =
      some main := by
    rw [getElem?_modify, if_neg hg]
    exact hmain
  rw [finish]
  obtain ⟨size, hsize⟩ := Nat.exists_eq_succ_of_ne_zero (Nat.pos_iff_ne_zero.mp hpos)
  dsimp only
  rw [hsize, List.range_succ_eq_map, List.foldl_cons]
  rw [hmain', Option.any_some, hjoins, if_pos rfl, endWait_eq hmain', htask, wakeTask, if_pos rfl]
  refine foldl_eq_self fun f hf => if_neg ?_
  obtain ⟨f, -, rfl⟩ := List.mem_map.mp hf
  rw [Bool.not_eq_true]
  change ((m.modify g _).modify 0 _).fibers[f + 1]?.any _ = false
  rw [getElem?_modify, if_neg (Nat.succ_ne_zero f).symm, getElem?_modify]
  split
  · cases m.fibers[f + 1]? with
    | none => rfl
    | some fiber => rfl
  · rename_i hfg
    cases hf : m.fibers[f + 1]? with
    | none => rfl
    | some fiber => exact h _ fiber (Nat.succ_ne_zero f) (Ne.symm hfg) hf

/-! ### A main program and its job -/

theorem drain_of_outcome? {o : Outcome} (h : m.outcome? 0 = some o) (fuel : Nat) :
    m.drain fuel = m := by
  cases fuel with
  | zero => rfl
  | succ fuel => rw [drain, h, Option.isSome_some, if_pos rfl]

/-- The main program goes on when it is polled after the end of its job. -/
theorem visit_of_joined {main : Fiber} (hmain : m.fibers[0]? = some main)
    (hunwatched : main.isWatching = false)
    (hstate : main.state = .waiting (.wait (.join g)) (mainWait (.wait (.join g))) true) :
    m.visit (.poll 0) = m.finish 0 .finished := by
  have hgoes := (isUnwatched_of_fiber hmain hunwatched).not_isInterrupted
  obtain ⟨task, token, isWatching, parts, state⟩ := main
  subst hstate
  rw [visit, hmain]
  simp only [hgoes]
  rfl

/-- The end of a job ends the wait of the main program. -/
theorem Attends.ends (h : m.Attends g) (o : Outcome) :
    ∃ m' : Machine, m'.IsIdle ∧ m'.world = m.world ∧ m'.program = m.program ∧
      m'.outcome? 0 = some .finished ∧ m'.outcome? g = some o ∧ Leads 2 (m.finish g o) m' := by
  obtain ⟨main, hmain, htask, hunwatched, hstate⟩ := h.main
  obtain ⟨job, hjob, -⟩ := h.job
  have hpos := h.pos
  have hothers := h.others
  obtain ⟨world, program, fibers, agenda, queue, isMainWoken, timers, cancelled, runs⟩ := m
  obtain rfl : agenda = [] := h.agenda
  obtain rfl : queue = [] := h.queue
  obtain rfl : timers = [] := h.timers
  obtain rfl : isMainWoken = false := h.unwoken
  have hfinish := finish_of_main_joins (o := o) hmain htask
    (by rw [joins, hstate]; exact beq_self_eq_true g) hpos fun f fiber hf hfg hfiber => by
      obtain ⟨o', ho'⟩ := hothers f fiber hf hfg hfiber
      exact joins_of_finished ho'
  -- what is left of the machine when the main program is polled
  let working : Machine := { world, program, fibers, cancelled, runs }
  let polled : Machine := (working.modify g fun fiber =>
    { fiber with state := .finished o }).modify 0 Fiber.roused
  have hpolled : polled.fibers[0]? = some main.roused := by
    rw [getElem?_modify, if_pos rfl, getElem?_modify, if_neg hpos]
    exact congrArg _ hmain
  have hdone : polled.fibers[g]? = some { job with state := .finished o } := by
    rw [getElem?_modify, if_neg (Ne.symm hpos), getElem?_modify, if_pos rfl]
    exact congrArg _ hjob
  have hroused := Fiber.roused_of_waiting hstate
  have hwaits : polled.outcome? 0 = none := by rw [outcome?_of_state hpolled, hroused]
  have hrest : ∀ (f : Nat) (fiber : Fiber), f ≠ 0 → polled.fibers[f]? = some fiber →
      ∃ o, fiber.state = .finished o := by
    intro f fiber hf hfiber
    by_cases hfg : f = g
    · subst hfg
      rw [hdone] at hfiber
      exact ⟨o, by rw [← Option.some.inj hfiber]⟩
    · rw [getElem?_modify, if_neg (Ne.symm hf), getElem?_modify, if_neg (Ne.symm hfg)] at hfiber
      exact hothers f fiber hf hfg hfiber
  have hend : polled.visit (.poll 0) =
      polled.modify 0 fun fiber => { fiber with state := .finished .finished } := by
    rw [visit_of_joined hpolled (by rw [hroused]; exact hunwatched) (by rw [hroused])]
    refine finish_of_not_joined fun f fiber hf hfiber => ?_
    obtain ⟨o', ho'⟩ := hrest f fiber hf hfiber
    exact joins_of_finished ho'
  have hmain' : (polled.modify 0 fun fiber =>
      { fiber with state := .finished .finished }).fibers[0]? =
      some { main.roused with state := .finished .finished } := by
    rw [getElem?_modify, if_pos rfl, hpolled]
    rfl
  refine ⟨_, ⟨rfl, rfl, rfl, rfl, ⟨_, hmain', ?_, ?_⟩, fun f fiber hfiber => ?_⟩, rfl, rfl, ?_, ?_,
    ?_⟩
  · exact (Fiber.task_roused main).trans htask
  · exact (Fiber.isWatching_roused main).trans hunwatched
  · by_cases hf : f = 0
    · subst hf
      rw [hmain'] at hfiber
      exact ⟨.finished, by rw [← Option.some.inj hfiber]⟩
    · rw [getElem?_modify, if_neg (Ne.symm hf)] at hfiber
      exact hrest f fiber hf hfiber
  · rw [outcome?_of_state hmain']
  · have hdone' : (polled.modify 0 fun fiber =>
        { fiber with state := .finished .finished }).fibers[g]? =
        some { job with state := .finished o } := by
      rw [getElem?_modify, if_neg (Ne.symm hpos)]
      exact hdone
    rw [outcome?_of_state hdone']
  · rw [hfinish]
    have hwoken : Leads 1 { polled with isMainWoken := true } { polled with agenda := [.poll 0] } :=
      leads_of_step hwaits rfl
    have hpoll : Leads 1 { polled with agenda := [.poll 0] } (polled.visit (.poll 0)) :=
      leads_of_step hwaits rfl
    rw [hend] at hpoll
    exact hwoken.trans hpoll

theorem addFiber_task {fiber : Fiber} (h : m.fibers[f]? = some fiber) (p : Steward Outcome) :
    m.addFiber f false p = (m.fibers.size, { m with
      fibers := m.fibers.push
        { task := m.fibers.size, token := fiber.token, state := .ready p } }) := by
  simp only [addFiber, h]

/-- A job that the main program starts and waits for is polled, and nothing else is under way. -/
theorem IsIdle.starts (hm : m.IsIdle) (j : Job) :
    ∃ (g : Nat) (m₁ m₂ : Machine), m.perform 0 (.spawn j) = (some g, m₁) ∧
      m₁.perform 0 (.wait (.join g)) = (none, m₁) ∧
      m₂.Attends g ∧ m₂.world = m.world ∧ m₂.program = m.program ∧
      Leads 2 (m₁.modify 0 fun fiber => { fiber with
        state := .waiting (.wait (.join g)) (mainWait (.wait (.join g))) false })
        (m₂.runFiber g (m.program j)) := by
  obtain ⟨main, hmain, htask, hunwatched⟩ := hm.main
  have hfinished := hm.finished
  obtain ⟨world, program, fibers, agenda, queue, isMainWoken, timers, cancelled, runs⟩ := m
  obtain rfl : agenda = [] := hm.agenda
  obtain rfl : queue = [] := hm.queue
  obtain rfl : timers = [] := hm.timers
  obtain rfl : isMainWoken = false := hm.unwoken
  have hpos : fibers.size ≠ 0 := by
    obtain ⟨hsize, -⟩ := Array.getElem?_eq_some_iff.mp hmain
    exact Nat.pos_iff_ne_zero.mp hsize
  let job : Fiber := { task := fibers.size, token := main.token, state := .ready (program j) }
  let started : Machine := { world, program, fibers := fibers.push job, cancelled, runs }
  have hold : ∀ f fiber, started.fibers[f]? = some fiber → f = fibers.size ∧ fiber = job ∨
      fibers[f]? = some fiber := by
    intro f fiber hfiber
    rw [Array.getElem?_push] at hfiber
    split at hfiber
    · exact .inl ⟨‹_›, (Option.some.inj hfiber).symm⟩
    · exact .inr hfiber
  have hjob : started.fibers[fibers.size]? = some job := by
    rw [Array.getElem?_push, if_pos rfl]
  have hmain' : started.fibers[0]? = some main := by
    rw [Array.getElem?_push, if_neg (Ne.symm hpos)]
    exact hmain
  have hspawn : perform { world, program, fibers, cancelled, runs } 0 (.spawn j) =
      (some fibers.size, { started with queue := [fibers.size] }) := by
    rw [perform, addFiber_task hmain]
    change (_, started.wake fibers.size) = _
    rw [wake, hjob]
    dsimp only
    rw [wakeTask, if_neg hpos]
    rfl
  have hjoin : perform { started with queue := [fibers.size] } 0 (.wait (.join fibers.size)) =
      (none, { started with queue := [fibers.size] }) := by
    have hgoes := (isUnwatched_of_fiber (m := { started with queue := [fibers.size] }) hmain'
      hunwatched).not_isInterrupted
    have hruns : outcome? { started with queue := [fibers.size] } fibers.size = none :=
      outcome?_of_state hjob
    rw [perform, hgoes, beginWait, hruns]
    rfl
  let waits := started.modify 0 fun fiber => { fiber with
    state := .waiting (.wait (.join fibers.size)) (mainWait (.wait (.join fibers.size))) false }
  have hwaits : waits.fibers[0]? = some { main with
      state := .waiting (.wait (.join fibers.size))
        (mainWait (.wait (.join fibers.size))) false } := by
    rw [getElem?_modify, if_pos rfl, hmain']
    rfl
  have hjob' : waits.fibers[fibers.size]? = some job := by
    rw [getElem?_modify, if_neg (Ne.symm hpos), hjob]
  have hattends : waits.Attends fibers.size := by
    refine ⟨rfl, rfl, rfl, rfl, ⟨_, hwaits, htask, hunwatched, rfl⟩, hpos, ⟨job, hjob', rfl, rfl⟩,
      fun f fiber hf hfg hfiber => ?_⟩
    rw [getElem?_modify, if_neg (Ne.symm hf)] at hfiber
    rcases hold f fiber hfiber with ⟨heq, -⟩ | hfiber
    · exact absurd heq hfg
    · exact hfinished f fiber hfiber
  refine ⟨fibers.size, _, waits, hspawn, hjoin, hattends, rfl, rfl, ?_⟩
  have hqueue : Leads 1 { waits with queue := [fibers.size] }
      { waits with agenda := [.poll fibers.size] } := leads_of_step hattends.outcome?_main rfl
  have hpoll : Leads 1 { waits with agenda := [.poll fibers.size] }
      (waits.runFiber fibers.size (program j)) := by
    refine leads_of_step hattends.outcome?_main (congrArg some ?_)
    change waits.visit (.poll fibers.size) = _
    rw [visit, hjob']
  exact hqueue.trans hpoll

/-- A wait of the main program, from its start to its end. -/
theorem waitMain_of_leads {w : Wait} {n : Nat}
    (h : Leads n (m.modify 0 fun fiber => { fiber with
      state := .waiting (.wait w) (mainWait (.wait w)) false }) m')
    (hn : n ≤ Program.manyRounds + m.agenda.length) (hmain : m'.outcome? 0 = some .finished) :
    m.waitMain (.wait w) = (some (some (m'.answerOf 0 w)), m') := by
  obtain ⟨rest, hrest⟩ := Nat.exists_eq_add_of_le hn
  have hdrain := h rest
  rw [drain_of_outcome? hmain, Nat.add_comm rest, ← hrest] at hdrain
  simp only [waitMain, hdrain, hmain]

end Machine

/-- A main program starts a job, waits for it, and has what came of it. -/
theorem Yields.job {program : Job → Steward Outcome} {j : Job} {w w' : World} {n : Nat}
    {o : Outcome} (hworks : Machine.Works n (program j) w o w') (hn : n + 4 ≤ Program.manyRounds) :
    Yields program (do perform (.wait (.join (← perform (.spawn j))))) w (some o) w' := by
  rintro m hm rfl rfl
  obtain ⟨g, m₁, m₂, hspawn, hjoin, hattends, hworld, hprogram, hstart⟩ := hm.starts j
  obtain ⟨n', hn', m₃, hm₃, hworld₃, hprogram₃, hwork⟩ := hworks m₂ g hattends hworld .done
  rw [Program.bind_done] at hwork
  obtain ⟨m', hidle, hworld', hprogram', hmain, hjob, hend⟩ := hm₃.ends o
  refine ⟨m', hidle, hworld'.trans hworld₃, hprogram'.trans (hprogram₃.trans hprogram),
    fun next => ?_⟩
  -- the wait of the main program, from its start to its end
  have hwait := Machine.waitMain_of_leads ((hstart.trans hwork).trans hend)
    (Nat.le_add_right_of_le (by omega)) hmain
  rw [Machine.answerOf, hjob, Option.getD_some] at hwait
  change m.runMain (.ask (.spawn j) fun g => .ask (.wait (.join g)) fun o => next o) = _
  rw [Machine.runMain_of_perform hspawn, Machine.runMain, hjoin]
  simp only [hwait]

theorem Yields.run_job {α : Type} {program : Job → Steward Outcome} {j : Job} {w w' w'' : World}
    {n : Nat} {o : Outcome} {f : Outcome → Watched α} {a : Option α}
    (hworks : Machine.Works n (program j) w o w') (hn : n + 4 ≤ Program.manyRounds)
    (h : Yields program (f o).run w' a w'') :
    Yields program (do f (← await (.join (← perform (.spawn j)))) : Watched α).run w a w'' :=
  run_bind (p := (do await (.join (← perform (.spawn j))) : Watched Outcome)) (job hworks hn) h

end CertSteward
