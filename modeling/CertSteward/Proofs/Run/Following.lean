import CertSteward.Proofs.Run.MutexTable
import CertSteward.Proofs.Run.Parts
import CertSteward.Run.Retry

/-!
# What a main program comes to

A fiber that is polled goes on until it waits or ends, and so wakes others: who stands in line for
what it lets go, and who waits for its end.

A main program that nobody interrupts can be followed from one request to the next: what it asks for
is answered, its sleeps move the clock on, and nobody else has a turn as long as it starts no jobs.
It may watch for its cancellation meanwhile, as long as it is not cancelled.

## Main definitions

* `Machine.Is` — where a fiber is that has not been cancelled
* `World.follow?`, `World.follows?` — what a program comes to that only sleeps
* `Machine.IsAlone` — nothing is under way, and the main program is not cancelled
* `Gets`, `Returns` — what a main program comes to that is not cancelled

## Main results

* `Machine.visit_of_ready`, `visit_of_slot`, `visit_of_join`, `visit_of_sleep` — fibers that are
  polled
* `Machine.finish_of_joined` — a fiber that one other waits for ends
* `Machine.tick?_of_same` — sleeps that end together
* `Gets.of_follows?`, `Yields.of_follows?` — programs that only sleep
* `Machine.run_of_returns` — the run of a main program
-/

namespace CertSteward

/-! ### Whole milliseconds -/

namespace Duration

/-- A whole number of milliseconds, as sleeps leave the clock at. -/
def IsWhole (d : Duration) : Prop := 1000000 ∣ d

theorem isWhole_ceilMillis (d : Duration) : IsWhole (ceilMillis d) := Nat.dvd_mul_left ..

theorem IsWhole.max {d d' : Duration} (h : IsWhole d) (h' : IsWhole d') : IsWhole (max d d') := by
  rcases Nat.le_total d d' with hle | hle
  · rwa [Nat.max_eq_right hle]
  · rwa [Nat.max_eq_left hle]

end Duration

namespace Machine

variable {m m' : Machine} {f g h task token : Nat} {state : Fiber.State} {fiber : Fiber}

/-! ### Steps -/

theorem step_of_agenda {v : Visit} {agenda : List Visit} (h : m.agenda = v :: agenda) :
    m.step = some ({ m with agenda }.visit v) := by
  rw [step, h]

theorem leads_of_agenda {v : Visit} {agenda : List Visit} (hmain : m.outcome? 0 = none)
    (h : m.agenda = v :: agenda) : Leads 1 m ({ m with agenda }.visit v) :=
  leads_of_step hmain (step_of_agenda h)

/-- A job is polled when nothing is left to look at before it. -/
theorem leads_of_queue {queue : List Nat} (hmain : m.outcome? 0 = none) (hagenda : m.agenda = [])
    (hqueue : m.queue = g :: queue) : Leads 2 m ({ m with queue }.visit (.poll g)) := by
  have hfirst : m.step = some { m with queue, agenda := [.poll g] } := by
    rw [step, hagenda, hqueue]
  refine (leads_of_step hmain hfirst).trans (leads_of_step hmain ?_)
  rw [step_of_agenda rfl]
  obtain ⟨world, program, fibers, agenda, queue, isMainWoken, timers, cancelled, runs⟩ := m
  obtain rfl : agenda = [] := hagenda
  rfl

/-- The main program is polled when no job is left to poll. -/
theorem leads_of_woken (hmain : m.outcome? 0 = none) (hagenda : m.agenda = [])
    (hqueue : m.queue = []) (h : m.isMainWoken = true) :
    Leads 2 m ({ m with isMainWoken := false }.visit (.poll 0)) := by
  have hfirst : m.step = some m.pollMain := by
    rw [step, hagenda, hqueue]
    exact if_pos h
  refine (leads_of_step hmain hfirst).trans (leads_of_step hmain ?_)
  rw [step_of_agenda rfl]
  obtain ⟨world, program, fibers, agenda, queue, isMainWoken, timers, cancelled, runs⟩ := m
  obtain rfl : agenda = [] := hagenda
  rfl

/-! ### Where fibers are -/

/-- A fiber comes to a state, in these surroundings. -/
def becomes (m : Machine) (w : World) (f : Nat) (state : Fiber.State) : Machine :=
  (m.within w).modify f fun fiber => { fiber with state }

theorem getElem?_becomes {w : World} : (m.becomes w f state).fibers[g]? =
    if f = g then m.fibers[g]?.map fun fiber => { fiber with state } else m.fibers[g]? :=
  getElem?_modify

/-- A fiber is at this state, is polled for this task, and has this token, which is not
cancelled. -/
structure Is (m : Machine) (f task token : Nat) (state : Fiber.State) : Prop where
  here : ∃ fiber : Fiber, m.fibers[f]? = some fiber ∧ fiber.task = task ∧ fiber.token = token ∧
    fiber.state = state
  live : m.cancelled.contains token = false

namespace Is

theorem not_isInterrupted (hf : m.Is f task token state) : m.isInterrupted f = false := by
  obtain ⟨⟨fiber, hfiber, -, rfl, -⟩, hlive⟩ := hf
  have hcancelled : m.isCancelled f = false := by
    rw [isCancelled, hfiber]
    exact hlive
  rw [isInterrupted, hcancelled, Bool.false_and]

theorem state_eq (hf : m.Is f task token state) (hfiber : m.fibers[f]? = some fiber) :
    fiber.state = state := by
  obtain ⟨⟨fiber', hfiber', -, -, rfl⟩, -⟩ := hf
  rw [Option.some.inj (hfiber.symm.trans hfiber')]

theorem congr (hf : m.Is f task token state) (hfiber : m'.fibers[f]? = m.fibers[f]?)
    (hcancelled : m'.cancelled = m.cancelled) : m'.Is f task token state where
  here := by
    rw [hfiber]
    exact hf.here
  live := by
    rw [hcancelled]
    exact hf.live

theorem outcome?_of_finished {o : Outcome} (hf : m.Is f task token (.finished o)) :
    m.outcome? f = some o := by
  obtain ⟨⟨fiber, hfiber, -, -, hstate⟩, -⟩ := hf
  rw [outcome?_of_state hfiber, hstate]

theorem outcome?_of_ready {p : Steward Outcome} (hf : m.Is f task token (.ready p)) :
    m.outcome? f = none := by
  obtain ⟨⟨fiber, hfiber, -, -, hstate⟩, -⟩ := hf
  rw [outcome?_of_state hfiber, hstate]

theorem outcome?_of_waiting {a : Act} {next : a.Answer → Steward Outcome} {isOver : Bool}
    (hf : m.Is f task token (.waiting a next isOver)) : m.outcome? f = none := by
  obtain ⟨⟨fiber, hfiber, -, -, hstate⟩, -⟩ := hf
  rw [outcome?_of_state hfiber, hstate]

/-- A fiber that comes to another state. -/
theorem becomes (hf : m.Is f task token state) (w : World) (state' : Fiber.State) :
    (m.becomes w f state').Is f task token state' where
  here := by
    obtain ⟨⟨fiber, hfiber, htask, htoken, -⟩, -⟩ := hf
    refine ⟨{ fiber with state := state' }, ?_, htask, htoken, rfl⟩
    rw [getElem?_becomes, if_pos rfl, hfiber, Option.map_some]
  live := hf.live

/-- A fiber whose wait ends. -/
theorem roused {a : Act} {next : a.Answer → Steward Outcome} {isOver : Bool}
    (hf : m.Is f task token (.waiting a next isOver)) :
    (m.modify f Fiber.roused).Is f task token (.waiting a next true) where
  here := by
    obtain ⟨⟨fiber, hfiber, htask, htoken, hstate⟩, -⟩ := hf
    refine ⟨fiber.roused, ?_, (Fiber.task_roused fiber).trans htask, ?_, ?_⟩
    · rw [getElem?_modify, if_pos rfl, hfiber, Option.map_some]
    · rw [Fiber.roused_of_waiting hstate]
      exact htoken
    · rw [Fiber.roused_of_waiting hstate]
  live := hf.live

end Is

/-! ### Fibers that are polled -/

variable {a : Act} {next : a.Answer → Steward Outcome} {answer : a.Answer}

theorem runFiber_of_perform (h : m.perform f a = (some answer, m')) :
    m.runFiber f (.ask a next) = m'.runFiber f (next answer) := by
  rw [runFiber, h]

theorem runFiber_of_waits (h : m.perform f a = (none, m')) : m.runFiber f (.ask a next) =
    m'.modify f fun fiber => { fiber with state := .waiting a next false } := by
  rw [runFiber, h]

theorem visit_of_ready {p : Steward Outcome} (hf : m.Is f task token (.ready p)) :
    m.visit (.poll f) = m.runFiber f p := by
  obtain ⟨⟨fiber, hfiber, -, -, hstate⟩, -⟩ := hf
  rw [visit, hfiber]
  simp only [hstate]

theorem visit_of_finished {o : Outcome} (hf : m.Is f task token (.finished o)) :
    m.visit (.poll f) = m := by
  obtain ⟨⟨fiber, hfiber, -, -, hstate⟩, -⟩ := hf
  rw [visit, hfiber]
  simp only [hstate]

theorem visit_of_slot {c : Nat} {next : Option Unit → Steward Outcome}
    (hf : m.Is f task token (.waiting (.wait (.slot c)) next true)) :
    m.visit (.poll f) = m.runFiber f (next (some ())) := by
  have hgoes := hf.not_isInterrupted
  obtain ⟨⟨⟨_, _, isWatching, parts, _⟩, hfiber, -, -, rfl⟩, -⟩ := hf
  rw [visit, hfiber]
  simp only [hgoes]
  rfl

theorem visit_of_join {next : Option Outcome → Steward Outcome} {o : Outcome}
    (hf : m.Is f task token (.waiting (.wait (.join g)) next true)) (hg : m.outcome? g = some o) :
    m.visit (.poll f) = m.runFiber f (next (some o)) := by
  have hgoes := hf.not_isInterrupted
  obtain ⟨⟨⟨_, _, isWatching, parts, _⟩, hfiber, -, -, rfl⟩, -⟩ := hf
  rw [visit, hfiber]
  simp only [hgoes, answerOf, hg]
  rfl

theorem visit_of_sleep {time : Duration} {next : Option Unit → Steward Outcome}
    (h : m.fibers[f]? = some fiber) (hgoes : m.isInterrupted f = false)
    (hstate : fiber.state = .waiting (.wait (.sleep time)) next true) :
    m.visit (.poll f) = m.runFiber f (next (some ())) := by
  obtain ⟨_, _, isWatching, parts, state⟩ := fiber
  subst hstate
  rw [visit, h]
  simp only [hgoes]
  rfl

theorem runFiber_of_reply? {w : World} (hf : m.isInterrupted f = false)
    (h : m.world.reply? a = some (answer, w)) :
    m.runFiber f (.ask a next) = (m.within w).runFiber f (next answer) :=
  runFiber_of_perform (perform_of_reply? hf h)

/-- A program that does not wait is run to its end. -/
theorem runFiber_of_ends {p : Steward Outcome} {o : Outcome} {w : World}
    (hf : m.isInterrupted f = false) (h : m.world.eval? p = some (o, w)) :
    m.runFiber f p = (m.within w).finish f o := by
  have hrun := runFiber_of_eval? hf h .done
  rwa [Program.bind_done] at hrun

/-- A machine with one more job. -/
def started (m : Machine) (token : Nat) (j : Job) : Machine :=
  { m with fibers := m.fibers.push { task := m.fibers.size, token, state := .ready (m.program j) }
           queue := m.queue ++ [m.fibers.size] }

theorem perform_spawn (hf : m.Is f task token state) (hqueue : m.fibers.size ∉ m.queue) (j : Job) :
    m.perform f (.spawn j) = (some m.fibers.size, m.started token j) := by
  obtain ⟨⟨fiber, hfiber, -, rfl, -⟩, -⟩ := hf
  have hsize : m.fibers.size ≠ 0 := by
    obtain ⟨hlt, -⟩ := Array.getElem?_eq_some_iff.mp hfiber
    omega
  have hnot : ¬m.queue.contains m.fibers.size = true := fun h => hqueue (List.contains_iff_mem.mp h)
  rw [perform, addFiber_task hfiber]
  dsimp only
  rw [wake, Array.getElem?_push_size]
  dsimp only
  rw [wakeTask, if_neg hsize, if_neg hnot]
  rfl

theorem getElem?_started {j : Job} (hg : g ≠ m.fibers.size) :
    (m.started token j).fibers[g]? = m.fibers[g]? := by
  rw [started, Array.getElem?_push, if_neg hg]

theorem Is.ne_size (hf : m.Is f task token state) : f ≠ m.fibers.size := by
  obtain ⟨⟨fiber, hfiber, -⟩, -⟩ := hf
  obtain ⟨hlt, -⟩ := Array.getElem?_eq_some_iff.mp hfiber
  exact Nat.ne_of_lt hlt

theorem Is.started (hf : m.Is f task token state) (j : Job) :
    (m.started token j).Is f task token state :=
  hf.congr (getElem?_started hf.ne_size) rfl

/-- A job that was just started. -/
theorem is_started (hlive : m.cancelled.contains token = false) (j : Job) :
    (m.started token j).Is m.fibers.size m.fibers.size token (.ready (m.program j)) where
  here := ⟨_, Array.getElem?_push_size, rfl, rfl, rfl⟩
  live := hlive

/-- Whoever waits for the end of a job that goes on has to wait. -/
theorem perform_join (hf : m.Is f task token state) (hg : m.outcome? g = none) :
    m.perform f (.wait (.join g)) = (none, m) := by
  rw [perform, hf.not_isInterrupted, beginWait, hg]
  rfl

/-- A sleep that ends at once. -/
theorem perform_sleep_of_le {time : Duration} (hf : m.isInterrupted f = false)
    (h : Duration.ceilMillis (m.world.clock + time) ≤ m.world.clock) :
    m.perform f (.wait (.sleep time)) = (some (some ()), m) := by
  rw [perform, hf, beginWait, if_pos h]
  rfl

theorem perform_sleep_of_lt {time : Duration} (hf : m.isInterrupted f = false)
    (h : m.world.clock < Duration.ceilMillis (m.world.clock + time)) :
    m.perform f (.wait (.sleep time)) = (none, { m with
      timers := m.timers ++ [{ ends := Duration.ceilMillis (m.world.clock + time), fiber := f }] }) := by
  rw [perform, hf, beginWait, if_neg (Nat.not_le_of_lt h)]
  rfl

/-- Several things are looked at one after the other. -/
theorem Leads.each {κ : Type} {n : Nat} {P : List κ → List κ → Machine → Prop}
    (step : ∀ done x todo m, P done (x :: todo) m →
      ∃ m', Leads n m m' ∧ P (done ++ [x]) todo m')
    {done todo : List κ} (h : P done todo m) :
    ∃ m', Leads (n * todo.length) m m' ∧ P (done ++ todo) [] m' := by
  induction todo generalizing done m with
  | nil => exact ⟨m, Leads.refl, by rwa [List.append_nil]⟩
  | cons x todo ih =>
    obtain ⟨m₁, hleads, h₁⟩ := step done x todo m h
    obtain ⟨m', hleads', h'⟩ := ih h₁
    refine ⟨m', ?_, by rwa [List.append_cons]⟩
    rw [List.length_cons, Nat.mul_succ, Nat.add_comm]
    exact hleads.trans hleads'

/-! ### Ends of waits -/

theorem endWait_part (h : m.fibers[f]? = some fiber) (htask : fiber.task = 0) :
    m.endWait f = { m.modify f Fiber.roused with isMainWoken := true } := by
  rw [endWait_eq h, htask, wakeTask, if_pos rfl]

theorem endWait_queue (h : m.fibers[f]? = some fiber) (htask : fiber.task = f) (hf : f ≠ 0)
    (hqueue : f ∉ m.queue) :
    m.endWait f = { m.modify f Fiber.roused with queue := m.queue ++ [f] } := by
  have hnot : ¬(m.modify f Fiber.roused).queue.contains f = true := fun h =>
    hqueue (List.contains_iff_mem.mp h)
  rw [endWait_eq h, htask, wakeTask, if_neg hf, if_neg hnot]
  rfl

/-- Whoever lets a slot go for which a part of the main program stands in line hands it over. -/
theorem perform_leave {c : Nat} {rest : List Nat} (hline : m.world.slots.line c = g :: rest)
    (h : m.fibers[g]? = some fiber) (htask : fiber.task = 0) :
    m.perform f (.slots (.leave c)) = (some (), { (m.within { m.world with
      slots := m.world.slots.modify c fun cell => { cell with waiting := rest } }).modify g
        Fiber.roused with isMainWoken := true }) := by
  rw [perform, MutexTable.apply, MutexTable.leave_of_cons hline]
  exact congrArg (some (), ·) (endWait_part (m := m.within _) h htask)

/-- The waits of several jobs end. -/
theorem foldl_endWait {l : List Nat} (hfs : ∀ f ∈ l, f ≠ 0 ∧ f ∉ m.queue ∧
      ∃ fiber, m.fibers[f]? = some fiber ∧ fiber.task = f) (hnodup : l.Nodup) :
    ∃ fibers : Array Fiber, l.foldl endWait m = { m with fibers, queue := m.queue ++ l } ∧
      ∀ g, fibers[g]? = if g ∈ l then m.fibers[g]?.map Fiber.roused else m.fibers[g]? := by
  induction l generalizing m with
  | nil => exact ⟨m.fibers, by simp, fun g => by simp⟩
  | cons f l ih =>
    obtain ⟨hf, hqueue, fiber, hfiber, htask⟩ := hfs f List.mem_cons_self
    obtain ⟨hnotin, hnodup⟩ := List.nodup_cons.mp hnodup
    let m₁ : Machine := { m.modify f Fiber.roused with queue := m.queue ++ [f] }
    have hsame : ∀ g, m₁.fibers[g]? =
        if f = g then m.fibers[g]?.map Fiber.roused else m.fibers[g]? := fun g => getElem?_modify
    obtain ⟨fibers, hfold, hfibers⟩ := ih (m := m₁) (fun g hg => by
      obtain ⟨hg0, hgqueue, other, hother, hgtask⟩ := hfs g (List.mem_cons_of_mem f hg)
      have hne : f ≠ g := fun h => hnotin (h ▸ hg)
      refine ⟨hg0, fun hmem => ?_, other, ?_, hgtask⟩
      · exact (List.mem_append.mp hmem).elim hgqueue fun h => hne (List.mem_singleton.mp h).symm
      · rw [hsame, if_neg hne]
        exact hother) hnodup
    refine ⟨fibers, ?_, fun g => ?_⟩
    · rw [List.foldl_cons, endWait_queue hfiber htask hf hqueue, hfold]
      simp [m₁, modify]
    · rw [hfibers, hsame]
      by_cases hg : f = g
      · subst hg
        simp [hnotin]
      · simp [hg, Ne.symm hg]

/-- A fiber that one part of the main program waits for ends. -/
theorem finish_of_joined {o : Outcome} (hp : m.fibers[f]? = some fiber) (htask : fiber.task = 0)
    (hjoins : joins fiber g = true) (hfg : f ≠ g)
    (hothers : ∀ h other, h ≠ f → h ≠ g → m.fibers[h]? = some other → joins other g = false) :
    m.finish g o = { (m.modify g fun fiber => { fiber with state := .finished o }).modify f
      Fiber.roused with isMainWoken := true } := by
  let ended := m.modify g fun fiber => { fiber with state := .finished o }
  have hended : ended.fibers[f]? = some fiber := by
    rw [getElem?_modify, if_neg (Ne.symm hfg)]
    exact hp
  -- nobody but the part is looked at twice
  have hnot : ∀ (n : Machine), (∀ h, h ≠ f → n.fibers[h]? = ended.fibers[h]?) → ∀ h, h ≠ f →
      (n.fibers[h]?.any (joins · g)) = false := by
    intro n hn h hf
    rw [hn h hf, getElem?_modify]
    split
    · subst h
      cases m.fibers[g]? <;> rfl
    · rename_i hg
      cases hfiber : m.fibers[h]? with
      | none => rfl
      | some other => exact hothers h other hf (Ne.symm hg) hfiber
  have hlt : f < ended.fibers.size := (Array.getElem?_eq_some_iff.mp hended).choose
  obtain ⟨before, after, hrange⟩ := List.append_of_mem (List.mem_range.mpr hlt)
  have hnodup : (before ++ f :: after).Nodup := hrange ▸ List.nodup_range
  have hbefore : ∀ h ∈ before, h ≠ f := fun h hh heq =>
    (List.nodup_append.mp hnodup).2.2 h hh f List.mem_cons_self heq
  have hafter : ∀ h ∈ after, h ≠ f := fun h hh heq =>
    (List.nodup_cons.mp (List.nodup_append.mp hnodup).2.1).1 (heq ▸ hh)
  rw [finish]
  change (List.range ended.fibers.size).foldl _ ended = _
  rw [hrange, List.foldl_append, List.foldl_cons, foldl_eq_self (s := ended) fun h hh =>
    if_neg (by rw [hnot ended (fun _ _ => rfl) h (hbefore h hh)]; exact Bool.false_ne_true),
    if_pos (by rw [hended]; exact hjoins), endWait_part hended htask]
  refine foldl_eq_self fun h hh => if_neg ?_
  rw [hnot _ (fun h hf => ?_) h (hafter h hh)]
  · exact Bool.false_ne_true
  · exact getElem?_modify.trans (if_neg (Ne.symm hf))

/-! ### Sleeps that end together -/

/-- The clock moves on to the end of sleeps that end together. -/
theorem tick?_of_same {ends : Duration} {fs : List Nat} (hne : fs ≠ [])
    (h : m.timers = fs.map fun f => { ends, fiber := f }) :
    m.tick? = some (fs.foldl endWait { m with
      timers := [], world.clock := max m.world.clock ends }) := by
  have hends : m.timers.map (·.ends) = fs.map fun _ => ends := by
    rw [h, List.map_map]
    rfl
  have hmin : (fs.map fun _ => ends).min? = some ends := by
    obtain ⟨f, rest, rfl⟩ := List.exists_cons_of_ne_nil hne
    refine List.min?_eq_some_iff.mpr ⟨List.mem_cons_self, fun b hb => ?_⟩
    obtain ⟨-, -, rfl⟩ := List.mem_map.mp hb
    exact Nat.le_refl _
  have hall : ∀ t ∈ m.timers, decide (t.ends ≤ max m.world.clock ends) = true := by
    rw [h]
    intro t ht
    obtain ⟨f, -, rfl⟩ := List.mem_map.mp ht
    exact decide_eq_true (Nat.le_max_right _ _)
  have hsorted : m.timers.mergeSort (fun a b => a.ends ≤ b.ends) = m.timers := by
    refine List.mergeSort_of_pairwise ?_
    rw [h]
    refine List.pairwise_map.mpr (List.pairwise_of_forall fun _ _ => ?_)
    exact decide_eq_true (Nat.le_refl _)
  rw [tick?, hends, hmin]
  simp only [List.partition_eq_filter_filter]
  have hleft : m.timers.filter (not ∘ fun t => t.ends ≤ max m.world.clock ends) = [] :=
    List.filter_eq_nil_iff.mpr fun t ht => by
      rw [Function.comp_apply, hall t ht]
      exact Bool.false_ne_true
  rw [List.filter_eq_self.mpr hall, hsorted, hleft, h, List.foldl_map]

end Machine

namespace World

/-- The answer to a request that needs nobody else, where sleeps are waited for. -/
def follow? (w : World) : (a : Act) → Option (a.Answer × World)
  | .wallClock => some w.readClock
  | .freshKey spec => some (KeyPair.make spec w.drawBytes.1, w.drawBytes.2)
  | .authority r => some (w.askAuthority r)
  | .note n => some ((), { w with metrics := w.metrics.take n })
  | .locks a =>
    match w.locks.apply () a with
    | ((answer, none), locks) => some (answer, { w with locks })
    | ((_, some _), _) => none
  | .wait (.lock c) =>
    if w.locks.isHeld c then none
    else some (some (), { w with locks := (w.locks.enter c 0).2 })
  | .wait (.sleep time) => some (some (), w.slept time)
  | a => w.reply? a

/-- The result of a program that waits for nothing but sleeps, and what it makes of the
surroundings. -/
def follows? {α : Type} : Steward α → World → Option (α × World)
  | .done a, w => some (a, w)
  | .ask a next, w => (w.follow? a).bind fun (answer, w) => follows? (next answer) w

variable {α β : Type} {w w' : World}

@[simp]
theorem follows?_bind (p : Steward α) (f : α → Steward β) :
    follows? (p >>= f) w = (follows? p w).bind fun x => follows? (f x.1) x.2 := by
  induction p generalizing w with
  | done a => rfl
  | ask a next ih =>
    change ((w.follow? a).bind fun x => follows? (next x.1 >>= f) x.2) = _
    rw [follows?, Option.bind_assoc]
    congr 1
    funext x
    exact ih x.1

@[simp]
theorem follows?_perform (a : Act) : follows? (perform a) w = w.follow? a := by
  change ((w.follow? a).bind fun x => some (x.1, x.2)) = _
  cases w.follow? a <;> rfl

theorem follows?_bind_of {p : Steward α} {f : α → Steward β} {a : α}
    (h : follows? p w = some (a, w')) : follows? (p >>= f) w = follows? (f a) w' := by
  rw [follows?_bind, h]
  rfl

theorem follows?_run_lift {p : Steward α} {a : α} (h : follows? p w = some (a, w')) :
    follows? (liftM p : Watched α).run w = some (some a, w') :=
  follows?_bind_of (f := fun a => return some a) h

/-- A program that can be interrupted, but is not. -/
theorem follows?_run_bind_of {p : Watched α} {f : α → Watched β} {a : α}
    (h : follows? p.run w = some (some a, w')) :
    follows? (p >>= f).run w = follows? (f a).run w' := by
  change follows? (p.run >>= _) w = _
  exact follows?_bind_of h

/-- The first of the tries that comes to something final is the last one. -/
theorem follows?_retryFrom {ε : Type} {again : ε → Bool} {call : Watched (Except ε α)}
    {result : Except ε α} {start : Duration} (h : w.follows? call.run = some (some result, w'))
    (hfinal : ∀ e, result = .error e → again e = false) (retries : Nat) (b : Backoff) :
    w.follows? (retryFrom again call start retries b).run = some (some result, w') := by
  cases retries with
  | zero => exact h
  | succ retries =>
    rw [retryFrom, follows?_run_bind_of h]
    cases result with
    | ok a => rfl
    | error e =>
      simp only [hfinal e rfl]
      rfl

end World

namespace Machine

variable {α β : Type} {m : Machine} {w' : World} {main : Fiber} {f : Nat}

/-- Nothing is under way, and nobody interrupts the main program. -/
structure Calm (m : Machine) (main : Fiber) : Prop where
  agenda : m.agenda = []
  queue : m.queue = []
  timers : m.timers = []
  unwoken : m.isMainWoken = false
  here : m.fibers[0]? = some main
  task : main.task = 0
  goes : m.isInterrupted 0 = false
  finished : ∀ (f : Nat) (fiber : Fiber), m.fibers[f]? = some fiber →
    ∃ o, fiber.state = .finished o

theorem perform_of_follow? {a : Act} {answer : a.Answer} (hf : m.isInterrupted f = false)
    (hsleep : ∀ time, a ≠ .wait (.sleep time)) (h : m.world.follow? a = some (answer, w')) :
    m.perform f a = (some answer, m.within w') := by
  cases a with
  | wallClock =>
    rw [World.follow?] at h
    rw [perform]
    generalize m.world.readClock = x at h ⊢
    cases h
    rfl
  | freshKey spec =>
    rw [World.follow?] at h
    rw [perform]
    generalize m.world.drawBytes = x at h ⊢
    cases h
    rfl
  | authority r =>
    rw [World.follow?] at h
    rw [perform]
    generalize m.world.askAuthority r = x at h ⊢
    cases h
    rfl
  | note n =>
    cases h
    rfl
  | locks a =>
    rw [World.follow?] at h
    rw [perform]
    generalize m.world.locks.apply () a = x at h ⊢
    obtain ⟨⟨answer', next⟩, locks⟩ := x
    cases next with
    | none =>
      cases h
      rfl
    | some _ => cases h
  | wait v =>
    cases v with
    | sleep time => exact absurd rfl (hsleep time)
    | lock c =>
      rw [World.follow?] at h
      cases hc : m.world.locks.isHeld c with
      | true =>
        rw [hc] at h
        cases h
      | false =>
        rw [hc] at h
        cases h
        have henter (i : Nat) : m.world.locks.enter c i = (true, m.world.locks.modify c fun cell =>
            { cell with isHeld := true }) := by
          rw [MutexTable.enter, MutexTable.tryEnter, if_neg (by rw [hc]; exact Bool.false_ne_true)]
        rw [perform, hf, beginWait, henter, henter]
        rfl
    | slot | permit | join | all => exact perform_of_reply? hf h
  | _ => exact perform_of_reply? hf h

/-- Whether a fiber is interrupted depends on its token and on whether it watches. -/
theorem isInterrupted_congr {m' : Machine} {fiber fiber' : Fiber} (h : m.fibers[f]? = some fiber)
    (h' : m'.fibers[f]? = some fiber') (htoken : fiber'.token = fiber.token)
    (hwatching : fiber'.isWatching = fiber.isWatching) (hcancelled : m'.cancelled = m.cancelled) :
    m'.isInterrupted f = m.isInterrupted f := by
  simp only [isInterrupted, isCancelled, h, h', hcancelled, Option.any_some, htoken, hwatching]

/-- The main program ends a wait. -/
theorem Calm.ends {m' : Machine} (h : m.Calm main) (o : Outcome)
    (hmain : m'.fibers[0]? = some { main with state := .finished o })
    (hothers : ∀ f, f ≠ 0 → m'.fibers[f]? = m.fibers[f]?) (hagenda : m'.agenda = [])
    (hqueue : m'.queue = []) (htimers : m'.timers = []) (hunwoken : m'.isMainWoken = false)
    (hcancelled : m'.cancelled = m.cancelled) : m'.Calm { main with state := .finished o } where
  agenda := hagenda
  queue := hqueue
  timers := htimers
  unwoken := hunwoken
  here := hmain
  task := h.task
  goes := (isInterrupted_congr h.here hmain rfl rfl hcancelled).trans h.goes
  finished f fiber hfiber := by
    by_cases hf : f = 0
    · subst hf
      rw [hmain] at hfiber
      obtain rfl := Option.some.inj hfiber
      exact ⟨o, rfl⟩
    · exact h.finished f fiber (hothers f hf ▸ hfiber)

theorem runMain_of_waitMain {m₁ m' : Machine} {w : Wait} {answer : Option w.Answer}
    (hperform : m.perform 0 (.wait w) = (none, m₁))
    (hwait : m₁.waitMain (.wait w) = (some answer, m')) {next : Option w.Answer → Steward α} :
    m.runMain (.ask (.wait w) next) = m'.runMain (next answer) := by
  rw [runMain, hperform]
  simp only [hwait]

/-- The main program goes on when it has slept. -/
theorem Calm.sleep (h : m.Calm main) (time : Duration) : ∃ (m' : Machine) (main' : Fiber),
    m'.Calm main' ∧ main'.token = main.token ∧ main'.isWatching = main.isWatching ∧
      m'.cancelled = m.cancelled ∧ m'.world = m.world.slept time ∧ m'.program = m.program ∧
      ∀ {α : Type} (next : Option Unit → Steward α),
        m.runMain (.ask (.wait (.sleep time)) next) = m'.runMain (next (some ())) := by
  by_cases hends : Duration.ceilMillis (m.world.clock + time) ≤ m.world.clock
  · refine ⟨m, main, h, rfl, rfl, rfl, ?_, rfl, fun next => ?_⟩
    · rw [World.slept, Nat.max_eq_left hends]
    · exact runMain_of_perform (perform_sleep_of_le h.goes hends)
  · let ends := Duration.ceilMillis (m.world.clock + time)
    let next := mainWait (.wait (.sleep time))
    let waiting (isOver : Bool) : Fiber :=
      { main with state := .waiting (.wait (.sleep time)) next isOver }
    let waits : Machine := { m.modify 0 fun fiber =>
      { fiber with state := .waiting (.wait (.sleep time)) next false } with
        timers := [{ ends, fiber := 0 }] }
    let later : Machine := { waits with timers := [], world.clock := max m.world.clock ends }
    let polled : Machine := { later.modify 0 Fiber.roused with isMainWoken := false }
    let ended : Machine := polled.modify 0 fun fiber => { fiber with state := .finished .finished }
    have hwaits : waits.fibers[0]? = some (waiting false) := by
      rw [getElem?_modify, if_pos rfl, h.here]
      rfl
    have hpolled : polled.fibers[0]? = some (waiting true) := by
      change (later.modify 0 Fiber.roused).fibers[0]? = _
      rw [getElem?_modify, if_pos rfl]
      exact congrArg (Option.map Fiber.roused) hwaits
    have hended : ended.fibers[0]? = some { main with state := .finished .finished } := by
      rw [getElem?_modify, if_pos rfl, hpolled]
      rfl
    have hothers : ∀ f, f ≠ 0 → polled.fibers[f]? = m.fibers[f]? := fun f hf =>
      (getElem?_modify.trans (if_neg (Ne.symm hf))).trans
        (getElem?_modify.trans (if_neg (Ne.symm hf)))
    -- the clock moves on, and the main program is polled
    have htick : Leads 1 waits { polled with agenda := [.poll 0] } := by
      refine leads_of_step (outcome?_of_state hwaits) ?_
      have hagenda : waits.agenda = [] := h.agenda
      have hqueue : waits.queue = [] := h.queue
      have hunwoken : waits.isMainWoken = false := h.unwoken
      rw [step, hagenda, hqueue]
      simp only [hunwoken, Bool.false_eq_true, if_false]
      rw [tick?_of_single rfl]
      have hend : later.endWait 0 = { later.modify 0 Fiber.roused with isMainWoken := true } :=
        endWait_part hwaits h.task
      exact congrArg (fun m => Option.map (fun m => if m.isMainWoken = true then m.pollMain else m)
        (some m)) hend
    have hvisit : polled.visit (.poll 0) = ended := by
      refine (visit_of_sleep hpolled ((isInterrupted_congr h.here hpolled rfl rfl rfl).trans h.goes)
        rfl).trans ?_
      refine finish_of_not_joined fun f fiber hf hfiber => ?_
      obtain ⟨o, ho⟩ := h.finished f fiber (hothers f hf ▸ hfiber)
      exact joins_of_finished ho
    have hpoll : Leads 1 { polled with agenda := [.poll 0] } ended := by
      refine leads_of_step (outcome?_of_state hpolled) ?_
      rw [step_of_agenda rfl]
      have hagenda : polled.agenda = [] := h.agenda
      rw [← hvisit, ← hagenda]
    refine ⟨ended, _, h.ends .finished hended (fun f hf =>
      (getElem?_modify.trans (if_neg (Ne.symm hf))).trans (hothers f hf)) h.agenda h.queue rfl rfl
      rfl, rfl, rfl, rfl, rfl, rfl, fun next => ?_⟩
    have hperform := perform_sleep_of_lt h.goes (Nat.not_le.mp hends)
    rw [h.timers, List.nil_append] at hperform
    have hwait := waitMain_of_leads (m := { m with timers := [{ ends, fiber := 0 }] })
      (htick.trans hpoll) (Nat.le_add_right_of_le (by decide)) (outcome?_of_state hended)
    exact runMain_of_waitMain hperform hwait

/-- The main program gets an answer that needs nobody else. -/
theorem Calm.follow (h : m.Calm main) {a : Act} {answer : a.Answer}
    (hanswer : m.world.follow? a = some (answer, w')) : ∃ (m' : Machine) (main' : Fiber),
    m'.Calm main' ∧ main'.token = main.token ∧ main'.isWatching = main.isWatching ∧
      m'.cancelled = m.cancelled ∧ m'.world = w' ∧ m'.program = m.program ∧
      ∀ {α : Type} (next : a.Answer → Steward α), m.runMain (.ask a next) = m'.runMain (next answer) := by
  by_cases hsleep : ∃ time, a = .wait (.sleep time)
  · obtain ⟨time, rfl⟩ := hsleep
    cases hanswer
    exact h.sleep time
  · refine ⟨m.within w', main, ⟨h.agenda, h.queue, h.timers, h.unwoken, h.here, h.task, h.goes,
      h.finished⟩, rfl, rfl, rfl, rfl, rfl, fun next => runMain_of_perform ?_⟩
    exact perform_of_follow? h.goes (fun time heq => hsleep ⟨time, heq⟩) hanswer

/-- The main program comes to what can be followed. -/
theorem Calm.follows (h : m.Calm main) {p : Steward β} {b : β}
    (hp : m.world.follows? p = some (b, w')) : ∃ (m' : Machine) (main' : Fiber),
    m'.Calm main' ∧ main'.token = main.token ∧ main'.isWatching = main.isWatching ∧
      m'.cancelled = m.cancelled ∧ m'.world = w' ∧ m'.program = m.program ∧
      ∀ {α : Type} (next : β → Steward α), m.runMain (p >>= next) = m'.runMain (next b) := by
  induction p generalizing m main with
  | done b' =>
    cases hp
    exact ⟨m, main, h, rfl, rfl, rfl, rfl, rfl, fun _ => rfl⟩
  | ask a rest ih =>
    obtain ⟨⟨answer, w⟩, hanswer, hrest⟩ := Option.bind_eq_some_iff.mp hp
    obtain ⟨m₁, main₁, h₁, htoken₁, hwatching₁, hcancelled₁, rfl, hprogram₁, hrun₁⟩ :=
      h.follow hanswer
    obtain ⟨m', main', h', htoken, hwatching, hcancelled, hworld, hprogram, hrun⟩ :=
      ih answer h₁ hrest
    exact ⟨m', main', h', htoken.trans htoken₁, hwatching.trans hwatching₁,
      hcancelled.trans hcancelled₁, hworld, hprogram.trans hprogram₁, fun next =>
        (hrun₁ _).trans (hrun next)⟩

theorem IsIdle.calm (hm : m.IsIdle) : ∃ main, m.Calm main ∧ main.isWatching = false := by
  obtain ⟨main, hmain, htask, hunwatched⟩ := hm.main
  exact ⟨main, ⟨hm.agenda, hm.queue, hm.timers, hm.unwoken, hmain, htask,
    hm.isUnwatched.not_isInterrupted, hm.finished⟩, hunwatched⟩

theorem Calm.isIdle (h : m.Calm main) (hunwatched : main.isWatching = false) : m.IsIdle :=
  ⟨h.agenda, h.queue, h.timers, h.unwoken, ⟨main, h.here, h.task, hunwatched⟩, h.finished⟩

/-- Nothing is under way but the main program, which has this token and is not cancelled. -/
structure IsAlone (m : Machine) (token : Nat) (isWatching : Bool) : Prop where
  calm : ∃ main, m.Calm main ∧ main.token = token ∧ main.isWatching = isWatching
  live : m.cancelled.contains token = false

/-- The next main program, if it is not cancelled. -/
theorem IsIdle.begun_isAlone (hm : m.IsIdle) (hlive : m.runs + 1 ∉ m.cancelled) :
    m.begun.IsAlone (m.runs + 1) false where
  calm := by
    obtain ⟨fiber, hfiber, htask, -⟩ := hm.main
    have hmain : m.begun.fibers[0]? =
        some { fiber with token := m.runs + 1, isWatching := false } :=
      (getElem?_modify (m := { m with runs := m.runs + 1 })).trans
        ((if_pos rfl).trans (congrArg _ hfiber))
    have hidle := hm.begun
    exact ⟨_, ⟨hidle.agenda, hidle.queue, hidle.timers, hidle.unwoken, hmain, htask,
      hidle.isUnwatched.not_isInterrupted, hidle.finished⟩, rfl, rfl⟩
  live := by
    rw [Bool.eq_false_iff]
    exact fun h => hlive (List.contains_iff_mem.mp h)

end Machine

/-- In such surroundings, a main program that watches for its cancellation or not, and is not
cancelled, goes through the program. What it comes to and in which surroundings is as `Q` says, and
it watches then or not. -/
def Gets {α : Type} (program : Job → Steward Outcome) (isWatching : Bool) (p : Steward α)
    (w : World) (isWatching' : Bool) (Q : α → World → Prop) : Prop :=
  ∀ (m : Machine) (token : Nat), m.IsAlone token isWatching → m.world = w → m.program = program →
    ∃ (m' : Machine) (a : α), m'.IsAlone token isWatching' ∧ m'.program = program ∧ Q a m'.world ∧
      ∀ {β : Type} (next : α → Steward β), m.runMain (p >>= next) = m'.runMain (next a)

namespace Gets

variable {α β : Type} {program : Job → Steward Outcome} {p : Steward α} {a : α}
variable {Q Q' : α → World → Prop} {R : β → World → Prop}
variable {w w' : World} {isWatching isWatching' isWatching'' : Bool}

theorem of_follows? (h : w.follows? p = some (a, w')) (hQ : Q a w') :
    Gets program isWatching p w isWatching Q := by
  rintro m token ⟨⟨main, hcalm, htoken, hwatching⟩, hlive⟩ rfl rfl
  obtain ⟨m', main', hcalm', htoken', hwatching', hcancelled, rfl, hprogram, hrun⟩ :=
    hcalm.follows h
  exact ⟨m', a, ⟨⟨main', hcalm', htoken'.trans htoken, hwatching'.trans hwatching⟩,
    hcancelled ▸ hlive⟩, hprogram, hQ, hrun⟩

theorem pure (hQ : Q a w) : Gets program isWatching (Pure.pure a) w isWatching Q :=
  of_follows? rfl hQ

theorem mono (h : Gets program isWatching p w isWatching' Q) (hQ : ∀ a w', Q a w' → Q' a w') :
    Gets program isWatching p w isWatching' Q' := by
  intro m token hm hw hprogram
  obtain ⟨m', a, hm', hprogram', hq, hrun⟩ := h m token hm hw hprogram
  exact ⟨m', a, hm', hprogram', hQ a _ hq, hrun⟩

theorem bind {f : α → Steward β} (h : Gets program isWatching p w isWatching' Q)
    (h' : ∀ a w', Q a w' → Gets program isWatching' (f a) w' isWatching'' R) :
    Gets program isWatching (p >>= f) w isWatching'' R := by
  intro m token hm hw hprogram
  obtain ⟨m', a, hm', hprogram', hq, hrun⟩ := h m token hm hw hprogram
  obtain ⟨m'', b, hm'', hprogram'', hr, hrun'⟩ := h' a _ hq m' token hm' rfl hprogram'
  refine ⟨m'', b, hm'', hprogram'', hr, fun next => ?_⟩
  rw [Program.bind_bind, hrun, hrun']

/-- Whether the main program watches changes nothing else. -/
theorem modify_watching (isWatching' : Bool) {m : Machine} {token : Nat}
    (hm : m.IsAlone token isWatching) :
    (m.modify 0 fun fiber => { fiber with isWatching := isWatching' }).IsAlone token isWatching' := by
  obtain ⟨⟨main, hcalm, rfl, rfl⟩, hlive⟩ := hm
  let m' : Machine := m.modify 0 fun fiber => { fiber with isWatching := isWatching' }
  have hmain : m'.fibers[0]? = some { main with isWatching := isWatching' } := by
    rw [Machine.getElem?_modify, if_pos rfl, hcalm.here]
    rfl
  have hgoes : m'.isCancelled 0 = false := by
    rw [Machine.isCancelled, hmain]
    exact hlive
  refine ⟨⟨_, ⟨hcalm.agenda, hcalm.queue, hcalm.timers, hcalm.unwoken, hmain, hcalm.task, ?_,
    fun f fiber hfiber => ?_⟩, rfl, rfl⟩, hlive⟩
  · rw [Machine.isInterrupted, hgoes, Bool.false_and]
  · rw [Machine.getElem?_modify] at hfiber
    split at hfiber
    · obtain ⟨before, hbefore, rfl⟩ := Option.map_eq_some_iff.mp hfiber
      exact hcalm.finished f before hbefore
    · exact hcalm.finished f fiber hfiber

theorem watch {Q : Bool → World → Prop} (hQ : Q true w) :
    Gets program isWatching (perform .watch) w true Q := by
  rintro m token hm rfl rfl
  refine ⟨_, true, modify_watching true hm, rfl, hQ, fun next => Machine.runMain_of_perform ?_⟩
  obtain ⟨⟨main, hcalm, rfl, -⟩, hlive⟩ := hm
  have hgoes : m.isCancelled 0 = false := by
    rw [Machine.isCancelled, hcalm.here]
    exact hlive
  rw [Machine.perform, hgoes]
  rfl

theorem watch_bind {f : Bool → Steward β} (h : Gets program true (f true) w isWatching' R) :
    Gets program isWatching (perform .watch >>= f) w isWatching' R := by
  refine bind (Q := fun b w' => b = true ∧ w' = w) (watch ⟨rfl, rfl⟩) ?_
  rintro _ _ ⟨rfl, rfl⟩
  exact h

theorem of_follows?_bind {f : α → Steward β} (h : w.follows? p = some (a, w'))
    (h' : Gets program isWatching (f a) w' isWatching' R) :
    Gets program isWatching (p >>= f) w isWatching' R := by
  refine bind (Q := fun b w'' => b = a ∧ w'' = w') (of_follows? h ⟨rfl, rfl⟩) ?_
  rintro _ _ ⟨rfl, rfl⟩
  exact h'

theorem unwatch {Q : Unit → World → Prop} (hQ : Q () w) :
    Gets program isWatching (perform .unwatch) w false Q := by
  rintro m token hm rfl rfl
  exact ⟨_, (), modify_watching false hm, rfl, hQ, fun next => Machine.runMain_of_perform rfl⟩

end Gets

theorem Yields.of_follows? {α : Type} {program : Job → Steward Outcome} {p : Steward α} {a : α}
    {w w' : World} (h : w.follows? p = some (a, w')) : Yields program p w a w' := by
  rintro m hm rfl rfl
  obtain ⟨main, hcalm, hunwatched⟩ := hm.calm
  obtain ⟨m', main', hcalm', -, hwatching, -, hworld, hprogram, hrun⟩ := hcalm.follows h
  exact ⟨m', hcalm'.isIdle (hwatching.trans hunwatched), hworld, hprogram, hrun⟩

/-- In such surroundings, a main program that watches for its cancellation or not, and is not
cancelled, goes through the program and does not watch any more then. What it comes to and in which
surroundings is as `Q` says. -/
def Returns {α : Type} (program : Job → Steward Outcome) (isWatching : Bool) (p : Steward α)
    (w : World) (Q : α → World → Prop) : Prop :=
  ∀ (m : Machine) (token : Nat), m.IsAlone token isWatching → m.world = w → m.program = program →
    ∃ (m' : Machine) (a : α), m'.IsIdle ∧ m'.program = program ∧ Q a m'.world ∧
      ∀ {β : Type} (next : α → Steward β), m.runMain (p >>= next) = m'.runMain (next a)

namespace Returns

variable {α β : Type} {program : Job → Steward Outcome} {p : Steward α} {f : α → Steward β}
variable {Q : α → World → Prop} {R : β → World → Prop} {a : α} {w w' : World}
variable {isWatching isWatching' : Bool}

theorem of_yields (h : Yields program p w a w') (hQ : Q a w') : Returns program false p w Q := by
  rintro m token ⟨⟨main, hcalm, -, hunwatched⟩, -⟩ hw hprogram
  obtain ⟨m', hm', rfl, hprogram', hrun⟩ := h m (hcalm.isIdle hunwatched) hw hprogram
  exact ⟨m', a, hm', hprogram', hQ, hrun⟩

theorem of_gets_bind (h : Gets program isWatching p w isWatching' Q)
    (h' : ∀ a w', Q a w' → Returns program isWatching' (f a) w' R) :
    Returns program isWatching (p >>= f) w R := by
  intro m token hm hw hprogram
  obtain ⟨m', a, hm', hprogram', hq, hrun⟩ := h m token hm hw hprogram
  obtain ⟨m'', b, hm'', hprogram'', hr, hrun'⟩ := h' a _ hq m' token hm' rfl hprogram'
  refine ⟨m'', b, hm'', hprogram'', hr, fun next => ?_⟩
  rw [Program.bind_bind, hrun, hrun']

theorem of_follows?_bind (h : w.follows? p = some (a, w'))
    (h' : Returns program isWatching (f a) w' R) : Returns program isWatching (p >>= f) w R := by
  refine of_gets_bind (Q := fun b w'' => b = a ∧ w'' = w') (Gets.of_follows? h ⟨rfl, rfl⟩) ?_
  rintro _ _ ⟨rfl, rfl⟩
  exact h'

theorem watch_bind {f : Bool → Steward β} (h : Returns program true (f true) w R) :
    Returns program isWatching (perform .watch >>= f) w R := by
  refine of_gets_bind (Q := fun b w' => b = true ∧ w' = w) (Gets.watch ⟨rfl, rfl⟩) ?_
  rintro _ _ ⟨rfl, rfl⟩
  exact h

theorem unwatch_bind {f : Unit → Steward β} (h : Returns program false (f ()) w R) :
    Returns program isWatching (perform .unwatch >>= f) w R := by
  refine of_gets_bind (Q := fun _ w' => w' = w) (Gets.unwatch rfl) ?_
  rintro _ _ rfl
  exact h

theorem bind_yields (h : Returns program isWatching p w Q)
    (h' : ∀ a w', Q a w' → ∃ b w'', Yields program (f a) w' b w'' ∧ R b w'') :
    Returns program isWatching (p >>= f) w R := by
  intro m token hm hw hprogram
  obtain ⟨m', a, hm', hprogram', hq, hrun⟩ := h m token hm hw hprogram
  obtain ⟨b, w'', hyields, hr⟩ := h' a _ hq
  obtain ⟨m'', hm'', rfl, hprogram'', hrun'⟩ := hyields m' hm' rfl hprogram'
  refine ⟨m'', b, hm'', hprogram'', hr, fun next => ?_⟩
  rw [Program.bind_bind, hrun, hrun']

end Returns

/-- A main program that is not cancelled comes to its end. -/
theorem Machine.run_of_returns {α : Type} {p : Steward α} {m : Machine} {Q : α → World → Prop}
    (hm : m.IsIdle) (hlive : m.runs + 1 ∉ m.cancelled) (h : Returns m.program false p m.world Q) :
    ∃ (m' : Machine) (a : α), m.run p = (some a, m') ∧ m'.IsIdle ∧ Q a m'.world ∧
      m'.program = m.program := by
  obtain ⟨m', a, hidle, hprogram, hq, hrun⟩ := h m.begun _ (hm.begun_isAlone hlive) rfl rfl
  refine ⟨m', a, ?_, hidle, hq, hprogram⟩
  have hdone := hrun .done
  rw [Program.bind_done] at hdone
  exact hdone

end CertSteward
