import CertSteward.Run.World

/-!
# Running programs

A machine runs one main program and the jobs that it starts, one step at a time. Each of them is a
*fiber*. A fiber runs until it has to wait. What ends its wait makes the machine *poll* it again:
jobs in the order in which their waits ended, and the main program when no job is left to poll.
When nothing is left to poll at all, the clock moves on to the next moment at which a sleep ends.

A program can wait for several jobs as parts of itself. They are polled whenever it is polled, in
their order, and share its cancellation.

A fiber that watches for its cancellation has its wait interrupted when it is polled after it was
cancelled. If the wait was for something that it has been given meanwhile, that is passed on.

## Main definitions

* `Fiber`, `Machine` — what is running
* `Machine.perform` — one act of a fiber
* `Machine.step` — one step of the machine
* `Machine.run` — a main program from its start to its end
-/

namespace CertSteward

/-- How far a fiber is. -/
inductive Fiber.State
  | ready (p : Steward Outcome)
  /-- It waits, and goes on when it is polled after the wait was ended. -/
  | waiting (a : Act) (next : a.Answer → Steward Outcome) (isOver : Bool)
  | finished (o : Outcome)

/-- A program that is running. -/
structure Fiber where
  /-- The fiber that is polled for it: itself, or the one that it is a part of. -/
  task : Nat
  /-- What it is cancelled by. -/
  token : Nat
  /-- Whether its waits can be interrupted. -/
  isWatching : Bool := false
  /-- Its parts while it waits for them. -/
  parts : List Nat := []
  state : Fiber.State

/-- Something to look at. -/
inductive Machine.Visit
  | poll (fiber : Nat)
  /-- After its parts were polled, sees whether they have finished. -/
  | collect (fiber : Nat)

/-- A sleep that ends at some time. -/
structure Machine.Timer where
  ends : Duration
  fiber : Nat

/-- A main program, which is fiber 0, and jobs in their world. -/
structure Machine where
  world : World
  /-- What jobs do. -/
  program : Job → Steward Outcome
  fibers : Array Fiber := #[{ task := 0, token := 0, state := .finished .finished }]
  /-- What to look at before anything else. -/
  agenda : List Machine.Visit := []
  /-- The jobs to poll, the first one first. -/
  queue : List Nat := []
  /-- Whether the main program is to be polled. -/
  isMainWoken : Bool := false
  /-- The sleeps, in the order in which they began. -/
  timers : List Machine.Timer := []
  /-- What is cancelled. -/
  cancelled : List Nat := []
  /-- How many main programs were run. -/
  runs : Nat := 0

namespace Machine

/-! ### Fibers -/

/-- Changes a fiber. -/
def modify (m : Machine) (f : Nat) (change : Fiber → Fiber) : Machine :=
  { m with fibers := m.fibers.modify f change }

/-- Starts a fiber as a task of its own, or as a part of the task of another. -/
def addFiber (m : Machine) (by_ : Nat) (asPart : Bool) (p : Steward Outcome) : Nat × Machine :=
  let new := m.fibers.size
  let fiber : Fiber := match m.fibers[by_]?, asPart with
    | some f, true => { task := f.task, token := f.token, isWatching := f.isWatching,
                        state := .ready p }
    | some f, false => { task := new, token := f.token, state := .ready p }
    | none, _ => { task := new, token := 0, state := .ready p }
  (new, { m with fibers := m.fibers.push fiber })

/-- What came of a fiber, if it has finished. -/
def outcome? (m : Machine) (f : Nat) : Option Outcome :=
  match m.fibers[f]? with
  | some { state := .finished o, .. } => some o
  | _ => none

/-- Whether a fiber is cancelled. -/
def isCancelled (m : Machine) (f : Nat) : Bool :=
  m.fibers[f]?.any fun fiber => m.cancelled.contains fiber.token

/-- Whether the wait of a fiber is to be interrupted. -/
def isInterrupted (m : Machine) (f : Nat) : Bool :=
  m.isCancelled f && m.fibers[f]?.any (·.isWatching)

/-- Has a task polled. -/
def wakeTask (m : Machine) (task : Nat) : Machine :=
  if task = 0 then { m with isMainWoken := true }
  else if m.queue.contains task then m
  else { m with queue := m.queue ++ [task] }

/-- Has a fiber polled. -/
def wake (m : Machine) (f : Nat) : Machine :=
  match m.fibers[f]? with
  | some fiber => m.wakeTask fiber.task
  | none => m

/-- Ends the wait of a fiber. -/
def endWait (m : Machine) (f : Nat) : Machine :=
  (m.modify f fun fiber => match fiber.state with
    | .waiting a next _ => { fiber with state := .waiting a next true }
    | _ => fiber).wake f

/-- Ends the wait of a fiber if there is one to end. -/
def endWait? (m : Machine) (f : Option Nat) : Machine := f.elim m m.endWait

/-- Whether a fiber waits for the end of another. -/
def joins (fiber : Fiber) (other : Nat) : Bool :=
  match fiber.state with
  | .waiting (.wait (.join f)) _ _ => f == other
  | _ => false

/-- Ends a fiber. -/
def finish (m : Machine) (f : Nat) (o : Outcome) : Machine :=
  let m := m.modify f fun fiber => { fiber with state := .finished o }
  (List.range m.fibers.size).foldl (fun m g =>
    if m.fibers[g]?.any (joins · f) then m.endWait g else m) m

/-- Cancels what a fiber is cancelled by. -/
def cancel (m : Machine) (f : Nat) : Machine :=
  match m.fibers[f]? with
  | none => m
  | some fiber =>
    let m := { m with cancelled := fiber.token :: m.cancelled }
    (List.range m.fibers.size).foldl (fun m g =>
      if m.fibers[g]?.any fun other => other.token == fiber.token && other.isWatching
      then m.wake g else m) m

/-! ### Acts -/

/-- Begins a wait, and says whether it is over at once. -/
def beginWait (m : Machine) (f : Nat) : Wait → Bool × Machine
  | .sleep time =>
    let ends := Duration.ceilMillis (m.world.clock + time)
    if ends ≤ m.world.clock then (true, m)
    else (false, { m with timers := m.timers ++ [{ ends, fiber := f }] })
  | .slot c =>
    let (got, slots) := m.world.slots.enter c f
    (got, { m with world.slots := slots })
  | .lock c =>
    let (got, locks) := m.world.locks.enter c f
    (got, { m with world.locks := locks })
  | .permit p =>
    match m.world.permits[p]? with
    | none => (true, m)
    | some permits =>
      let (got, permits) := permits.take f
      (got, { m with world.permits := m.world.permits.setIfInBounds p permits })
  | .join g => ((m.outcome? g).isSome, m)
  | .all jobs =>
    let (m, parts) := jobs.foldl (fun (m, parts) job =>
      let (part, m) := m.addFiber f true (m.program job)
      (m, parts ++ [part])) (m, [])
    let m := m.modify f fun fiber => { fiber with parts }
    if parts.isEmpty then (true, m)
    else (false, { m with agenda := parts.map .poll ++ .collect f :: m.agenda })

/-- Gives up a wait, and passes on what it was for if that was given already. -/
def giveUpWait (m : Machine) (f : Nat) (isOver : Bool) : Wait → Machine
  | .sleep _ => { m with timers := m.timers.filter fun t => t.fiber ≠ f }
  | .slot c =>
    if isOver then
      let (next, slots) := m.world.slots.leave c
      { m with world.slots := slots }.endWait? next
    else { m with world.slots := m.world.slots.withdraw c f }
  | .lock c =>
    if isOver then
      let (next, locks) := m.world.locks.leave c
      { m with world.locks := locks }.endWait? next
    else { m with world.locks := m.world.locks.withdraw c f }
  | .permit p =>
    match m.world.permits[p]? with
    | none => m
    | some permits =>
      if isOver then
        let (next, permits) := permits.giveBack
        { m with world.permits := m.world.permits.setIfInBounds p permits }.endWait? next
      else { m with world.permits := m.world.permits.setIfInBounds p (permits.withdraw f) }
  | .join _ | .all _ => m

/-- What there is when the wait of a fiber is over. -/
def answerOf (m : Machine) (f : Nat) : (w : Wait) → w.Answer
  | .sleep _ | .slot _ | .lock _ | .permit _ => ()
  | .join g => (m.outcome? g).getD .interrupted
  | .all _ => ((m.fibers[f]?.map (·.parts)).getD []).map fun g => (m.outcome? g).getD .interrupted

/-- One act of a fiber, with its answer unless the fiber has to wait for it. -/
def perform (m : Machine) (f : Nat) : (a : Act) → Option a.Answer × Machine
  | .now => (some m.world.clock, m)
  | .wallClock => let (t, world) := m.world.readClock; (some t, { m with world })
  | .freshName => let (name, world) := m.world.drawName; (some name, { m with world })
  | .freshKey spec =>
    let (bytes, world) := m.world.drawBytes
    (some (KeyPair.make spec bytes), { m with world })
  | .authority r => let (reply, world) := m.world.askAuthority r; (some reply, { m with world })
  | .dns r => let (reply, world) := m.world.askDns r; (some reply, { m with world })
  | .lookUp _ name => (some (m.world.lookUp name), m)
  | .records r => let (reply, world) := m.world.askStore r; (some reply, { m with world })
  | .note n => (some (), { m with world.metrics := m.world.metrics.take n })
  | .counts => (some m.world.metrics, m)
  | .attempts id => (some (m.world.attemptsOf id), m)
  | .setAttempts id n => (some (), { m with world := m.world.setAttempts id n })
  | .slots a =>
    let ((answer, next), slots) := m.world.slots.apply none a
    (some answer, { m with world.slots := slots }.endWait? next)
  | .locks a =>
    let ((answer, next), locks) := m.world.locks.apply () a
    (some answer, { m with world.locks := locks }.endWait? next)
  | .newPermits n =>
    (some m.world.permits.size, { m with world.permits := m.world.permits.push { free := n } })
  | .givePermit p =>
    match m.world.permits[p]? with
    | none => (some (), m)
    | some permits =>
      let (next, permits) := permits.giveBack
      (some (), { m with world.permits := m.world.permits.setIfInBounds p permits }.endWait? next)
  | .isCancelled => (some (m.isCancelled f), m)
  | .cancel => (some (), m.cancel f)
  | .watch =>
    if m.isCancelled f then (some false, m)
    else (some true, m.modify f fun fiber => { fiber with isWatching := true })
  | .unwatch => (some (), m.modify f fun fiber => { fiber with isWatching := false })
  | .spawn j =>
    let (g, m) := m.addFiber f false (m.program j)
    (some g, m.wake g)
  | .halt => (none, m)
  | .wait w =>
    if m.isInterrupted f then (some none, m)
    else
      match m.beginWait f w with
      | (true, m) => (some (some (m.answerOf f w)), m)
      | (false, m) => (none, m)

/-- Runs a fiber until it waits or ends. -/
def runFiber (f : Nat) : Steward Outcome → Machine → Machine
  | .done o, m => m.finish f o
  | .ask a next, m =>
    match m.perform f a with
    | (some answer, m) => runFiber f (next answer) m
    | (none, m) => m.modify f fun fiber => { fiber with state := .waiting a next false }

/-! ### Steps -/

/-- Looks at a fiber. -/
def visit (m : Machine) : Visit → Machine
  | .poll f =>
    match m.fibers[f]? with
    | none => m
    | some fiber =>
      match fiber.state with
      | .ready p => m.runFiber f p
      | .waiting (.wait (.all _)) _ _ =>
        { m with agenda := fiber.parts.map .poll ++ .collect f :: m.agenda }
      | .waiting (.wait w) next isOver =>
        if m.isInterrupted f then (m.giveUpWait f isOver w).runFiber f (next none)
        else if isOver then m.runFiber f (next (some (m.answerOf f w)))
        else m
      | .waiting .. | .finished _ => m
  | .collect f =>
    match m.fibers[f]? with
    | none => m
    | some fiber =>
      match fiber.state with
      | .waiting (.wait w) next _ =>
        if m.isInterrupted f then m.runFiber f (next none)
        else if fiber.parts.all fun g => (m.outcome? g).isSome then
          m.runFiber f (next (some (m.answerOf f w)))
        else m
      | _ => m

/-- Moves the clock on to the next end of a sleep, if there is one. -/
def tick? (m : Machine) : Option Machine :=
  match (m.timers.map (·.ends)).min? with
  | none => none
  | some ends =>
    let m := { m with world.clock := max m.world.clock ends }
    let (ended, left) := m.timers.partition fun t => t.ends ≤ m.world.clock
    some ((ended.mergeSort fun a b => a.ends ≤ b.ends).foldl (fun m t => m.endWait t.fiber)
      { m with timers := left })

/-- Has the main program polled next. -/
def pollMain (m : Machine) : Machine := { m with isMainWoken := false, agenda := [.poll 0] }

/-- One step, if there is anything to do. -/
def step (m : Machine) : Option Machine :=
  match m.agenda, m.queue with
  | v :: agenda, _ => some ({ m with agenda }.visit v)
  | [], t :: queue => some { m with queue, agenda := [.poll t] }
  | [], [] =>
    if m.isMainWoken then some m.pollMain
    else m.tick?.map fun m => if m.isMainWoken then m.pollMain else m

/-- Makes steps until the main program goes on. -/
def drain : Nat → Machine → Machine
  | 0, m => m
  | fuel + 1, m =>
    if (m.outcome? 0).isSome then m
    else match m.step with
      | some m => drain fuel m
      | none => m

/-- How a wait of the main program ended. -/
def mainWait (a : Act) (answer : a.Answer) : Steward Outcome :=
  match a, answer with
  | .wait _, none => .done .interrupted
  | _, _ => .done .finished

/-- Waits on behalf of the main program, until the wait is over or nothing can end it. What is not a
wait has no answer later. -/
def waitMain (m : Machine) : (a : Act) → Option a.Answer × Machine
  | .wait w =>
    let rounds := Program.manyRounds + m.agenda.length
    let m := m.modify 0 fun fiber =>
      { fiber with state := .waiting (.wait w) (mainWait (.wait w)) false }
    let m := m.drain rounds
    match m.outcome? 0 with
    | some .interrupted => (some none, m)
    | some _ => (some (some (m.answerOf 0 w)), m)
    | none => (none, m)
  | _ => (none, m)

/-- Runs the rest of the main program. -/
def runMain {α : Type} : Steward α → Machine → Option α × Machine
  | .done a, m => (some a, m)
  | .ask a next, m =>
    match m.perform 0 a with
    | (some answer, m) => runMain (next answer) m
    | (none, m) =>
      match m.waitMain a with
      | (some answer, m) => runMain (next answer) m
      | (none, m) => (none, m)

/-- Runs a main program, under a cancellation of its own. There is no result if it halts or waits
for something that never comes. Jobs that are left go on with the next main program. -/
def run {α : Type} (p : Steward α) (m : Machine) : Option α × Machine :=
  let m := { m with runs := m.runs + 1 }
  runMain p (m.modify 0 fun fiber => { fiber with token := m.runs, isWatching := false })

end Machine

end CertSteward
