import CertSteward.Run.Machine

/-!
# One main program at a time

Most programs need nobody else: they ask for what can be answered at once, and come to their end
without a wait. What such a program does can be computed from its surroundings alone, and the
machine does just that, whichever fiber runs it.

A main program that begins while nothing else is under way, and leaves nothing behind that is, can
be followed in the same terms: by the surroundings before and after it.

## Main definitions

* `World.eval?` — what a program comes to that does not wait
* `Machine.IsIdle` — nothing is under way
* `Yields` — what a main program comes to by itself

## Main results

* `Yields.of_eval?`, `Yields.bind` — main programs that do not wait, and one after another
* `Machine.run_of_yields` — the run of a main program
-/

namespace CertSteward

/-! ### Programs that do not wait -/

namespace World

/-- The surroundings after a sleep, which ends on a whole millisecond. -/
def slept (w : World) (time : Duration) : World :=
  { w with clock := max w.clock (Duration.ceilMillis (w.clock + time)) }

/-- The answer to a request that needs nobody else, and what it makes of the surroundings. -/
def reply? (w : World) : (a : Act) → Option (a.Answer × World)
  | .now => some (w.clock, w)
  | .dns r => some (w.askDns r)
  | .slots a =>
    match w.slots.apply none a with
    | ((answer, none), slots) => some (answer, { w with slots })
    | ((_, some _), _) => none
  | .wait (.slot c) =>
    if w.slots.isHeld c then none
    else some (some (), { w with slots := (w.slots.enter c 0).2 })
  | _ => none

/-- The result of a program that does not wait, and what it makes of the surroundings. -/
def eval? {α : Type} : Steward α → World → Option (α × World)
  | .done a, w => some (a, w)
  | .ask a next, w => (w.reply? a).bind fun (answer, w) => eval? (next answer) w

variable {α β : Type} {w w' : World}

@[simp]
theorem eval?_bind (p : Steward α) (f : α → Steward β) :
    eval? (p >>= f) w = (eval? p w).bind fun x => eval? (f x.1) x.2 := by
  induction p generalizing w with
  | done a => rfl
  | ask a next ih =>
    change ((w.reply? a).bind fun x => eval? (next x.1 >>= f) x.2) = _
    rw [eval?, Option.bind_assoc]
    congr 1
    funext x
    exact ih x.1

@[simp]
theorem eval?_perform (a : Act) : eval? (perform a) w = w.reply? a := by
  change ((w.reply? a).bind fun x => some (x.1, x.2)) = _
  cases w.reply? a <;> rfl

theorem eval?_bind_of {p : Steward α} {f : α → Steward β} {a : α} (h : eval? p w = some (a, w')) :
    eval? (p >>= f) w = eval? (f a) w' := by
  rw [eval?_bind, h]
  rfl

theorem eval?_run_lift {p : Steward α} {a : α} (h : eval? p w = some (a, w')) :
    eval? (liftM p : Watched α).run w = some (some a, w') :=
  eval?_bind_of (f := fun a => return some a) h

/-- A program that can be interrupted, but is not. -/
theorem eval?_run_bind_of {p : Watched α} {f : α → Watched β} {a : α}
    (h : eval? p.run w = some (some a, w')) : eval? (p >>= f).run w = eval? (f a).run w' := by
  change eval? (p.run >>= _) w = _
  exact eval?_bind_of h

/-- What does not wait touches records and slots only. -/
theorem eq_of_eval? {p : Steward α} {a : α} (h : eval? p w = some (a, w')) :
    w' = { w with dns := w'.dns, slots := w'.slots } := by
  induction p generalizing w with
  | done b =>
    cases h
    rfl
  | ask b next ih =>
    obtain ⟨⟨answer, w₁⟩, hreply, hrest⟩ := Option.bind_eq_some_iff.mp h
    have hfirst : w₁ = { w with dns := w₁.dns, slots := w₁.slots } := by
      cases b with
      | now | dns =>
        cases hreply
        rfl
      | slots step =>
        rw [reply?] at hreply
        generalize w.slots.apply none step = x at hreply
        obtain ⟨⟨_, next⟩, slots⟩ := x
        cases next with
        | none =>
          cases hreply
          rfl
        | some _ => cases hreply
      | wait v =>
        cases v with
        | slot c =>
          rw [reply?] at hreply
          split at hreply
          · cases hreply
          · cases hreply
            rfl
        | _ => cases hreply
      | _ => cases hreply
    rw [ih answer hrest, hfirst]

end World

namespace Machine

variable {α β : Type} {m : Machine} {w' : World} {f g : Nat}

theorem getElem?_modify {change : Fiber → Fiber} :
    (m.modify f change).fibers[g]? = if f = g then m.fibers[g]?.map change else m.fibers[g]? :=
  Array.getElem?_modify ..

/-- A machine whose surroundings are others. -/
def within (m : Machine) (w : World) : Machine := { m with world := w }

/-- Nobody watches for the cancellation of a fiber. -/
def IsUnwatched (m : Machine) (f : Nat) : Prop := m.fibers[f]?.any (·.isWatching) = false

theorem isUnwatched_of_fiber {fiber : Fiber} (h : m.fibers[f]? = some fiber)
    (hunwatched : fiber.isWatching = false) : m.IsUnwatched f := by
  rw [IsUnwatched, h]
  exact hunwatched

theorem IsUnwatched.not_isInterrupted (h : m.IsUnwatched f) : m.isInterrupted f = false := by
  rw [isInterrupted, h, Bool.and_false]

theorem perform_of_reply? {a : Act} {answer : a.Answer} (hf : m.isInterrupted f = false)
    (h : m.world.reply? a = some (answer, w')) :
    m.perform f a = (some answer, m.within w') := by
  cases a with
  | now =>
    cases h
    rfl
  | dns r =>
    cases h
    rfl
  | slots a =>
    rw [World.reply?] at h
    rw [perform]
    generalize m.world.slots.apply none a = x at h ⊢
    obtain ⟨⟨answer', next⟩, slots⟩ := x
    cases next with
    | none =>
      cases h
      rfl
    | some _ => cases h
  | wait v =>
    cases v with
    | slot c =>
      rw [World.reply?] at h
      cases hc : m.world.slots.isHeld c with
      | true =>
        rw [hc] at h
        cases h
      | false =>
        rw [hc] at h
        cases h
        have henter (i : Nat) : m.world.slots.enter c i = (true, m.world.slots.modify c fun cell =>
            { cell with isHeld := true }) := by
          rw [MutexTable.enter, MutexTable.tryEnter, if_neg (by rw [hc]; exact Bool.false_ne_true)]
        rw [perform, hf, beginWait, henter, henter]
        rfl
    | _ => cases h
  | _ => cases h

theorem runFiber_of_eval? {p : Steward α} {a : α} (hf : m.isInterrupted f = false)
    (h : m.world.eval? p = some (a, w')) (next : α → Steward Outcome) :
    m.runFiber f (p >>= next) = (m.within w').runFiber f (next a) := by
  induction p generalizing m with
  | done b =>
    cases h
    rfl
  | ask b rest ih =>
    obtain ⟨⟨answer, w⟩, hreply, hrest⟩ := Option.bind_eq_some_iff.mp h
    change m.runFiber f (.ask b fun answer => rest answer >>= next) = _
    rw [runFiber, perform_of_reply? hf hreply]
    exact ih answer (m := m.within w) hf hrest

theorem runMain_of_perform {a : Act} {next : a.Answer → Steward β} {answer : a.Answer}
    (h : m.perform 0 a = (some answer, m')) :
    m.runMain (.ask a next) = m'.runMain (next answer) := by
  rw [runMain, h]

theorem runMain_of_eval? {p : Steward α} {a : α} (hf : m.isInterrupted 0 = false)
    (h : m.world.eval? p = some (a, w')) (next : α → Steward β) :
    m.runMain (p >>= next) = (m.within w').runMain (next a) := by
  induction p generalizing m with
  | done b =>
    cases h
    rfl
  | ask b rest ih =>
    obtain ⟨⟨answer, w⟩, hreply, hrest⟩ := Option.bind_eq_some_iff.mp h
    change m.runMain (.ask b fun answer => rest answer >>= next) = _
    rw [runMain_of_perform (perform_of_reply? hf hreply)]
    exact ih answer (m := m.within w) hf hrest

/-! ### Idle machines -/

/-- Nothing is under way, and nobody watches for a cancellation of the next main program. -/
structure IsIdle (m : Machine) : Prop where
  agenda : m.agenda = []
  queue : m.queue = []
  timers : m.timers = []
  unwoken : m.isMainWoken = false
  main : ∃ fiber : Fiber, m.fibers[0]? = some fiber ∧ fiber.task = 0 ∧ fiber.isWatching = false
  finished : ∀ (f : Nat) (fiber : Fiber), m.fibers[f]? = some fiber →
    ∃ o, fiber.state = .finished o

namespace IsIdle

theorem isUnwatched (h : m.IsIdle) : m.IsUnwatched 0 := by
  obtain ⟨fiber, hfiber, -, hunwatched⟩ := h.main
  exact isUnwatched_of_fiber hfiber hunwatched

theorem within (h : m.IsIdle) (w : World) : (m.within w).IsIdle :=
  ⟨h.agenda, h.queue, h.timers, h.unwoken, h.main, h.finished⟩

/-- What the main program has come to stays when other things about it change. -/
theorem modify (h : m.IsIdle) {change : Fiber → Fiber}
    (htask : ∀ fiber, (change fiber).task = fiber.task)
    (hwatching : ∀ fiber, fiber.isWatching = false → (change fiber).isWatching = false)
    (hstate : ∀ fiber, (change fiber).state = fiber.state) : (m.modify 0 change).IsIdle where
  agenda := h.agenda
  queue := h.queue
  timers := h.timers
  unwoken := h.unwoken
  main := by
    obtain ⟨fiber, hfiber, hmain, hunwatched⟩ := h.main
    refine ⟨change fiber, ?_, (htask fiber).trans hmain, hwatching fiber hunwatched⟩
    rw [getElem?_modify, if_pos rfl, hfiber, Option.map_some]
  finished f fiber hf := by
    rw [getElem?_modify] at hf
    split at hf
    · obtain ⟨before, hbefore, rfl⟩ := Option.map_eq_some_iff.mp hf
      rw [hstate]
      exact h.finished f before hbefore
    · exact h.finished f fiber hf

end IsIdle

/-- A main program begins under a cancellation of its own. -/
def begun (m : Machine) : Machine :=
  { m with runs := m.runs + 1 }.modify 0 fun fiber =>
    { fiber with token := m.runs + 1, isWatching := false }

theorem IsIdle.begun (hm : m.IsIdle) : m.begun.IsIdle :=
  have hruns : { m with runs := m.runs + 1 }.IsIdle :=
    ⟨hm.agenda, hm.queue, hm.timers, hm.unwoken, hm.main, hm.finished⟩
  hruns.modify (fun _ => rfl) (fun _ _ => rfl) (fun _ => rfl)

end Machine

/-! ### What main programs come to -/

/-- In such surroundings, and while nothing else is under way, a main program goes through the
program with this result and to those surroundings. Nothing is under way then. -/
def Yields {α : Type} (program : Job → Steward Outcome) (p : Steward α) (w : World) (a : α)
    (w' : World) : Prop :=
  ∀ m : Machine, m.IsIdle → m.world = w → m.program = program →
    ∃ m' : Machine, m'.IsIdle ∧ m'.world = w' ∧ m'.program = program ∧
      ∀ {β : Type} (next : α → Steward β), m.runMain (p >>= next) = m'.runMain (next a)

namespace Yields

variable {α β : Type} {program : Job → Steward Outcome} {p : Steward α} {a : α} {b : β}
variable {w w' w'' : World}

theorem of_eval? (h : w.eval? p = some (a, w')) : Yields program p w a w' := by
  rintro m hm rfl rfl
  exact ⟨m.within w', hm.within w', rfl, rfl, fun next => Machine.runMain_of_eval?
    hm.isUnwatched.not_isInterrupted h next⟩

theorem bind {q : α → Steward β} (h : Yields program p w a w')
    (h' : Yields program (q a) w' b w'') :
    Yields program (p >>= q) w b w'' := by
  intro m hm hw hprogram
  obtain ⟨m', hm', hw', hprogram', hrun⟩ := h m hm hw hprogram
  obtain ⟨m'', hm'', hw'', hprogram'', hrun'⟩ := h' m' hm' hw' hprogram'
  refine ⟨m'', hm'', hw'', hprogram'', fun next => ?_⟩
  rw [Program.bind_bind, hrun, hrun']

theorem run_bind {p : Watched α} {f : α → Watched β} {b : Option β}
    (h : Yields program p.run w (some a) w') (h' : Yields program (f a).run w' b w'') :
    Yields program (p >>= f).run w b w'' := by
  change Yields program (p.run >>= _) w b w''
  exact h.bind h'

end Yields

/-- A main program comes to its end. -/
theorem Machine.run_of_yields {α : Type} {p : Steward α} {a : α} {m : Machine} {w' : World}
    (hm : m.IsIdle) (h : Yields m.program p m.world a w') :
    ∃ m' : Machine, m.run p = (some a, m') ∧ m'.IsIdle ∧ m'.world = w' ∧
      m'.program = m.program := by
  obtain ⟨m', hidle, hworld, hprogram, hrun⟩ := h m.begun hm.begun rfl rfl
  refine ⟨m', ?_, hidle, hworld, hprogram⟩
  have hdone := hrun .done
  rw [Program.bind_done] at hdone
  exact hdone

end CertSteward
