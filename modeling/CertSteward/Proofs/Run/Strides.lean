import CertSteward.Proofs.Run.Stages

/-!
# Strands that run at the same time

Strands run at the same time and come between each other everywhere: a *stride* is one request of
one strand, whichever, and what a strand does between two requests of its own is never seen by
another one. So an operation that is made of several requests, such as taking a domain or letting it
go, can be cut anywhere. Nothing schedules the strands: which of them is next is left open, a sleep
may end at any time, and a strand that watches for its cancellation may be interrupted in every
wait. So a weave has every run that any order of strands and any surroundings can bring about, and
what holds in every weave holds under all of them.

## Main definitions

* `Weave.Stride` — one request of one strand
* `Weave.Strides` — what strides lead to
* `Weave.wait?`, `Weave.Deed` — what strands wait for, and what a stride does

## Main results

* `Weave.Stride.turn` — what a stride does to strands and log
* `Weave.Stride.deed` — what a stride does to waits and to what strands share
* `Weave.gathered_of_running` — a strand goes on when all of its parts have ended
-/

namespace CertSteward

/-- What a strand waits for. -/
def Strand.wait? {β : Type} (s : Strand β) : Option Wait :=
  match s.stage, s.program with
  | .waiting _, .ask (.wait v) _ => some v
  | _, _ => none

namespace Weave

variable {β : Type}

/-- What a strand waits for. -/
def wait? (w : Weave β) (i : Nat) : Option Wait := w.strands[i]?.bind Strand.wait?

/-- One strand goes on by one request, or begins, waits or ends. -/
inductive Stride (program : Job → Steward Outcome) : Weave β → Weave β → Prop
  | begin {w : Weave β} {i : Nat} {s : Strand β} (here : w.strands[i]? = some s)
    (isIdle : s.stage = .idle) : Stride program w (w.put i { s with stage := .running })
  /-- A request other than a wait. -/
  | act {w : Weave β} {i : Nat} {s : Strand β} {a : Act}
    {next : a.Answer → Steward (Outcome ⊕ β)} {answer : a.Answer} (here : w.strands[i]? = some s)
    (runs : s.stage = .running) (asks : s.program = .ask a next) (fits : w.Fits a answer) :
    Stride program w ((w.serve program s a).resume i s a next answer)
  | wait {w : Weave β} {i : Nat} {s : Strand β} {v : Wait}
    {next : Option v.Answer → Steward (Outcome ⊕ β)} (here : w.strands[i]? = some s)
    (runs : s.stage = .running) (asks : s.program = .ask (.wait v) next)
    (simple : ∀ jobs, v ≠ .all jobs) :
    Stride program w ((w.enter i v).put i { s with stage := .waiting [] })
  /-- The wait of a strand is over. -/
  | goOn {w : Weave β} {i : Nat} {s : Strand β} {parts : List Nat} {v : Wait}
    {next : Option v.Answer → Steward (Outcome ⊕ β)} {answer : v.Answer}
    (here : w.strands[i]? = some s) (waits : s.stage = .waiting parts)
    (asks : s.program = .ask (.wait v) next) (isOver : w.IsOver i v answer) :
    Stride program w (w.resume i s (.wait v) next (some answer))
  /-- A strand that watches for its cancellation is interrupted. -/
  | interrupt {w : Weave β} {i : Nat} {s : Strand β} {parts : List Nat} {v : Wait}
    {next : Option v.Answer → Steward (Outcome ⊕ β)} (here : w.strands[i]? = some s)
    (waits : s.stage = .waiting parts) (asks : s.program = .ask (.wait v) next)
    (simple : ∀ jobs, v ≠ .all jobs) (watches : s.isWatching = true) :
    Stride program w ((w.withdraw i v).resume i s (.wait v) next none)
  /-- A wait is refused to a strand that is cancelled. -/
  | refuse {w : Weave β} {i : Nat} {s : Strand β} {v : Wait}
    {next : Option v.Answer → Steward (Outcome ⊕ β)} (here : w.strands[i]? = some s)
    (runs : s.stage = .running) (asks : s.program = .ask (.wait v) next)
    (watches : s.isWatching = true) : Stride program w (w.resume i s (.wait v) next none)
  | divide {w : Weave β} {i : Nat} {s : Strand β} {jobs : List Job}
    {next : Option (List Outcome) → Steward (Outcome ⊕ β)} (here : w.strands[i]? = some s)
    (runs : s.stage = .running) (asks : s.program = .ask (.wait (.all jobs)) next) :
    Stride program w (w.divide program i s jobs)
  /-- All parts of a strand have ended. -/
  | gather {w : Weave β} {i : Nat} {s : Strand β} {parts : List Nat} {jobs : List Job}
    {next : Option (List Outcome) → Steward (Outcome ⊕ β)} {outcomes : List Outcome}
    (here : w.strands[i]? = some s) (waits : s.stage = .waiting parts)
    (asks : s.program = .ask (.wait (.all jobs)) next)
    (ended : parts.map w.outcome? = outcomes.map some) :
    Stride program w (w.resume i s (.wait (.all jobs)) next (some outcomes))
  /-- A strand is interrupted while it waits for its parts, which have ended. -/
  | abandon {w : Weave β} {i : Nat} {s : Strand β} {parts : List Nat} {jobs : List Job}
    {next : Option (List Outcome) → Steward (Outcome ⊕ β)} (here : w.strands[i]? = some s)
    (waits : s.stage = .waiting parts) (asks : s.program = .ask (.wait (.all jobs)) next)
    (ended : ∀ f ∈ parts, (w.outcome? f).isSome) (watches : s.isWatching = true) :
    Stride program w (w.resume i s (.wait (.all jobs)) next none)
  | finish {w : Weave β} {i : Nat} {s : Strand β} {x : Outcome ⊕ β} (here : w.strands[i]? = some s)
    (runs : s.stage = .running) (ends : s.program = .done x) :
    Stride program w (w.put i { s with stage := .ended })
  /-- A strand stops for good. -/
  | halt {w : Weave β} {i : Nat} {s : Strand β} {next : Empty → Steward (Outcome ⊕ β)}
    (here : w.strands[i]? = some s) (runs : s.stage = .running)
    (asks : s.program = .ask .halt next) :
    Stride program w (w.put i { s with stage := .waiting [] })

/-- What strides lead to. -/
abbrev Strides (program : Job → Steward Outcome) : Weave β → Weave β → Prop :=
  Leads (Stride program)

variable {program : Job → Steward Outcome} {w u : Weave β}

/-- What a stride does to strands and log. -/
theorem Stride.turn (h : Stride program w u) : Turn program w u := by
  cases h with
  | begin here isIdle => exact .stage here rfl rfl (.running isIdle)
  | finish here runs ends => exact .stage here rfl rfl (.ended runs ends)
  | halt here runs asks => exact .stage here rfl rfl (.halted runs asks)
  | @wait i s v next here runs asks simple =>
    have hset : (w.enter i v).strands.set i { s with stage := .waiting [] } =
        w.strands.set i { s with stage := .waiting [] } := by rw [strands_enter]
    exact .stage here hset (log_enter v) (.waiting runs asks simple)
  | divide here _ asks => exact .divide here asks rfl rfl
  | goOn here _ asks isOver =>
    exact .answer here asks rfl (fun _ => canGet_of_isOver isOver) (.inl rfl) rfl
  | gather here waits asks ended =>
    exact .answer here asks rfl (fun hw => hw.canGet_of_ended here waits asks ended) (.inl rfl) rfl
  | interrupt here _ asks _ watches =>
    exact .answer here asks rfl (fun _ => Act.canGet_wait_none.mpr watches) (.inl (by simp))
      (by simp)
  | abandon here _ asks _ watches =>
    exact .answer here asks rfl (fun _ => Act.canGet_wait_none.mpr watches) (.inl rfl) rfl
  | act here _ asks fits =>
    exact .answer here asks rfl (fun _ => canGet_of_fits fits) (strands_serve _) (by simp)
  | refuse here _ asks watches =>
    exact .answer here asks rfl (fun _ => Act.canGet_wait_none.mpr watches) (.inl rfl) rfl

section Started

variable {mains : List (Steward β)}

theorem numbered_of_strides (h : Strides program (start mains) w) : w.Numbered :=
  h.numbered fun _ _ => Stride.turn

theorem divided_of_strides (h : Strides program (start mains) w) : w.Divided :=
  h.divided fun _ _ => Stride.turn

theorem settled_of_strides (h : Strides program (start mains) w) : w.Settled :=
  h.settled fun _ _ => Stride.turn

end Started

/-! ### What a stride does -/

/-- What strands have in common is the same. -/
structure Shares (u v : Weave β) : Prop where
  slots : u.slots = v.slots
  locks : u.locks = v.locks
  permits : u.permits = v.permits

/-- Strand `i` goes on with an answer, and no other strand does anything. -/
structure Answered (w u : Weave β) (i : Nat) (s : Strand β) (a : Act) (answer : a.Answer) :
    Prop where
  here : w.strands[i]? = some s
  asks : ∃ next, s.program = .ask a next
  log : u.log = w.log ++ [{ strand := i, run := s.run, act := a, answer }]
  after : u.wait? i = none
  others : ∀ j, j ≠ i → u.wait? j = w.wait? j

/-- What a stride does, strand by strand. -/
inductive Deed (program : Job → Steward Outcome) (w u : Weave β) : Prop
  | calm (waits : ∀ j, u.wait? j = w.wait? j) (log : u.log = w.log) (shares : u.Shares w)
  /-- A strand begins to wait. -/
  | enter {i : Nat} {s : Strand β} {v : Wait} {next : Option v.Answer → Steward (Outcome ⊕ β)}
    (here : w.strands[i]? = some s) (asks : s.program = .ask (.wait v) next)
    (before : w.wait? i = none) (after : u.wait? i = some v)
    (others : ∀ j, j ≠ i → u.wait? j = w.wait? j) (log : u.log = w.log)
    (shares : u.Shares (w.enter i v))
  | goOn {i : Nat} {s : Strand β} {v : Wait} {answer : v.Answer}
    (answered : w.Answered u i s (.wait v) (some answer)) (before : w.wait? i = some v)
    (isOver : (∃ jobs, v = .all jobs) ∨ w.IsOver i v answer) (shares : u.Shares w)
  | interrupt {i : Nat} {s : Strand β} {v : Wait} (answered : w.Answered u i s (.wait v) none)
    (before : w.wait? i = some v) (shares : u.Shares (w.withdraw i v))
  | refuse {i : Nat} {s : Strand β} {v : Wait} (answered : w.Answered u i s (.wait v) none)
    (before : w.wait? i = none) (shares : u.Shares w)
  | act {i : Nat} {s : Strand β} {a : Act} {answer : a.Answer}
    (answered : w.Answered u i s a answer) (before : w.wait? i = none) (fits : w.Fits a answer)
    (shares : u.Shares (w.serve program s a))

section Waits

variable {i j : Nat} {s t : Strand β}

theorem wait?_of_here (here : w.strands[i]? = some s) : w.wait? i = s.wait? := by
  rw [wait?, here]
  rfl

theorem wait?_of_running (here : w.strands[i]? = some s) (runs : s.stage = .running) :
    w.wait? i = none := by
  rw [wait?_of_here here, Strand.wait?, runs]

theorem wait?_of_waiting {parts : List Nat} {v : Wait}
    {next : Option v.Answer → Steward (Outcome ⊕ β)} (here : w.strands[i]? = some s)
    (waits : s.stage = .waiting parts) (asks : s.program = .ask (.wait v) next) :
    w.wait? i = some v := by
  rw [wait?_of_here here, Strand.wait?, waits, asks]

theorem wait?_congr (h : u.strands[j]? = w.strands[j]?) : u.wait? j = w.wait? j := by
  rw [wait?, wait?, h]

/-- Who has not begun waits for nothing. -/
theorem wait?_of_append {l : List (Strand β)} (strands : u.strands = w.strands ++ l)
    (hidle : ∀ t ∈ l, t.stage = .idle) (j : Nat) : u.wait? j = w.wait? j := by
  by_cases hj : j < w.strands.length
  · exact wait?_congr (by rw [strands, List.getElem?_append_left hj])
  · have hge := Nat.not_lt.mp hj
    rw [wait?, wait?, List.getElem?_eq_none hge, strands, List.getElem?_append_right hge]
    cases ht : l[j - w.strands.length]? with
    | none => rfl
    | some t => simp [Strand.wait?, hidle t (List.mem_of_getElem? ht)]

/-- Where a strand is put, the others wait for what they waited for. -/
theorem wait?_of_set {v : Weave β} (strands : u.strands = v.strands.set i t) (hj : j ≠ i) :
    u.wait? j = v.wait? j :=
  wait?_congr (by rw [strands, List.getElem?_set_ne (Ne.symm hj)])

theorem here_of_set {v : Weave β} (strands : u.strands = v.strands.set i t)
    (here : v.strands[i]? = some s) : u.strands[i]? = some t := by
  rw [strands, List.getElem?_set_self (lt_of_here here)]

/-- A strand that goes on has been answered. -/
theorem answered_resume {a : Act} {next : a.Answer → Steward (Outcome ⊕ β)} {answer : a.Answer}
    {v : Weave β} {l : List (Strand β)} (here : w.strands[i]? = some s)
    (asks : s.program = .ask a next) (strands : v.strands = w.strands ++ l)
    (hidle : ∀ t ∈ l, t.stage = .idle) (log : v.log = w.log) :
    w.Answered (v.resume i s a next answer) i s a answer where
  here := here
  asks := ⟨next, asks⟩
  log := by rw [log_resume, log]
  after := by
    have hhere : v.strands[i]? = some s := by
      rw [strands, List.getElem?_append_left (lt_of_here here), here]
    exact wait?_of_running (here_of_set strands_resume hhere) rfl
  others j hj := (wait?_of_set (v := v) strands_resume hj).trans (wait?_of_append strands hidle j)

end Waits

/-- **What a stride does.** -/
theorem Stride.deed (h : Stride program w u) : Deed program w u := by
  -- a strand that comes to another stage without a wait
  have hcalm : ∀ {i : Nat} {s : Strand β} {stage : Strand.Stage}, w.strands[i]? = some s →
      s.wait? = none → ({ s with stage } : Strand β).wait? = none → ∀ j,
      (w.put i { s with stage }).wait? j = w.wait? j := by
    intro i s stage here before after j
    by_cases hj : j = i
    · subst hj
      rw [wait?_of_here here, before, wait?_of_here (here_of_set rfl here), after]
    · exact wait?_of_set rfl hj
  have hnil : ∀ t ∈ ([] : List (Strand β)), t.stage = .idle :=
    fun _ h => absurd h List.not_mem_nil
  cases h with
  | begin here isIdle =>
    refine .calm (hcalm here ?_ ?_) rfl ⟨rfl, rfl, rfl⟩
    · rw [Strand.wait?, isIdle]
    · rfl
  | finish here runs ends =>
    refine .calm (hcalm here ?_ ?_) rfl ⟨rfl, rfl, rfl⟩
    · rw [Strand.wait?, runs]
    · rfl
  | halt here runs asks =>
    refine .calm (hcalm here ?_ ?_) rfl ⟨rfl, rfl, rfl⟩
    · rw [Strand.wait?, runs]
    · rw [Strand.wait?, asks]
  | @wait i s v next here runs asks simple =>
    have hhere : (w.enter i v).strands[i]? = some s := by rw [strands_enter, here]
    refine .enter here asks (wait?_of_running here runs)
      (wait?_of_waiting (here_of_set rfl hhere) rfl asks) (fun j hj => ?_) (log_enter v)
      ⟨rfl, rfl, rfl⟩
    exact (wait?_of_set rfl hj).trans (wait?_congr (by rw [strands_enter]))
  | @divide i s jobs next here runs asks =>
    have hidle : ∀ t ∈ jobs.map (s.ofJob program (some i)), t.stage = .idle := by
      intro t ht
      obtain ⟨job, -, rfl⟩ := List.mem_map.mp ht
      rfl
    let v : Weave β := { w with strands := w.strands ++ jobs.map (s.ofJob program (some i)) }
    have hhere : v.strands[i]? = some s := by
      rw [List.getElem?_append_left (lt_of_here here), here]
    refine .enter here asks (wait?_of_running here runs)
      (wait?_of_waiting (here_of_set (v := v) rfl hhere) rfl asks) (fun j hj => ?_) rfl
      ⟨rfl, rfl, rfl⟩
    exact (wait?_of_set (v := v) rfl hj).trans (wait?_of_append rfl hidle j)
  | goOn here waits asks isOver =>
    exact .goOn (answered_resume here asks (List.append_nil _).symm hnil rfl)
      (wait?_of_waiting here waits asks) (.inr isOver) ⟨rfl, rfl, rfl⟩
  | gather here waits asks ended =>
    exact .goOn (answered_resume here asks (List.append_nil _).symm hnil rfl)
      (wait?_of_waiting here waits asks) (.inl ⟨_, rfl⟩) ⟨rfl, rfl, rfl⟩
  | interrupt here waits asks _ _ =>
    exact .interrupt (answered_resume here asks (by simp) hnil (log_withdraw _))
      (wait?_of_waiting here waits asks) ⟨rfl, rfl, rfl⟩
  | abandon here waits asks _ _ =>
    exact .interrupt (answered_resume here asks (List.append_nil _).symm hnil rfl)
      (wait?_of_waiting here waits asks) ⟨rfl, rfl, rfl⟩
  | refuse here runs asks _ =>
    exact .refuse (answered_resume here asks (List.append_nil _).symm hnil rfl)
      (wait?_of_running here runs) ⟨rfl, rfl, rfl⟩
  | @act i s a next answer here runs asks fits =>
    have hserve : (w.serve program s a).strands = w.strands ∨ ∃ j, a = .spawn j ∧
        (w.serve program s a).strands = w.strands ++ [s.ofJob program none j] := strands_serve a
    obtain hsame | ⟨j, -, hmore⟩ := hserve
    · exact .act (answered_resume here asks (hsame.trans (List.append_nil _).symm) hnil
        (log_serve a)) (wait?_of_running here runs) fits ⟨rfl, rfl, rfl⟩
    · refine .act (answered_resume here asks hmore (fun t ht => ?_) (log_serve a))
        (wait?_of_running here runs) fits ⟨rfl, rfl, rfl⟩
      rw [List.mem_singleton.mp ht]
      rfl

/-! ### Strands and their parts -/

/-- All parts of a strand have ended. -/
def Gathered (w : Weave β) (o : Nat) : Prop :=
  ∀ (j : Nat) (t : Strand β), w.strands[j]? = some t → t.owner = some o → t.stage = .ended

/-- A strand waits for its parts. -/
structure Awaits (w : Weave β) (o j : Nat) (s : Strand β) (parts : List Nat) : Prop where
  here : w.strands[o]? = some s
  stage : s.stage = .waiting parts
  asks : ∃ jobs next, s.program = .ask (.wait (.all jobs)) next
  isPart : j ∈ parts

/-- A strand waits for all parts of it that have not ended. -/
def Tends (w : Weave β) : Prop := ∀ (j : Nat) (t : Strand β) (o : Nat), w.strands[j]? = some t →
  t.owner = some o → t.stage ≠ .ended → ∃ s parts, w.Awaits o j s parts

variable {i j : Nat} {s t : Strand β}

/-- Who does not wait for its parts has none that have not ended. -/
theorem Tends.gathered (hw : w.Tends) (here : w.strands[i]? = some s)
    (h : ∀ parts jobs next, s.stage = .waiting parts → s.program ≠ .ask (.wait (.all jobs)) next) :
    w.Gathered i := by
  intro j t ht howner
  by_cases hended : t.stage = .ended
  · exact hended
  · obtain ⟨s', parts, hawaits⟩ := hw j t i ht howner hended
    obtain ⟨jobs, next, hasks⟩ := hawaits.asks
    cases here.symm.trans hawaits.here
    exact absurd hasks (h parts jobs next hawaits.stage)

/-- Who goes on has no parts that have not ended. -/
theorem Tends.gathered_of_running (hw : w.Tends) (here : w.strands[i]? = some s)
    (runs : s.stage = .running) : w.Gathered i :=
  hw.gathered here fun _ _ _ hwaits => nomatch runs.symm.trans hwaits

/-- When all that a strand waits for have ended, it has no other parts. -/
theorem Tends.gathered_of_ended {parts : List Nat} (hw : w.Tends) (here : w.strands[i]? = some s)
    (waits : s.stage = .waiting parts) (ended : ∀ f ∈ parts, (w.outcome? f).isSome) :
    w.Gathered i := by
  intro j t ht howner
  by_cases hended : t.stage = .ended
  · exact hended
  · obtain ⟨s', parts', hawaits⟩ := hw j t i ht howner hended
    cases here.symm.trans hawaits.here
    cases waits.symm.trans hawaits.stage
    exact over_of_outcome? (ended j hawaits.isPart) ht

/-- A strand changes whose parts have ended, and new ones are on their own or waited for by it. -/
theorem Tends.set {s' : Strand β} {l new : List (Strand β)} (hw : w.Tends)
    (here : w.strands[i]? = some s) (strands : u.strands = l.set i s')
    (added : l = w.strands ++ new) (owner : s'.owner = s.owner)
    (atWork : s'.stage ≠ .ended → s.stage ≠ .ended)
    (gathered : w.Gathered i) (fresh : ∀ (j : Nat) (t : Strand β), w.strands.length ≤ j →
      (w.strands ++ new)[j]? = some t → t.owner = none ∨
        t.owner = some i ∧ ∃ parts, u.Awaits i j s' parts) : u.Tends := by
  subst added
  intro j t o ht howner hended
  have hold : ∀ {t' : Strand β}, w.strands[j]? = some t' → t'.owner = some o →
      t'.stage ≠ .ended → ∃ s parts, u.Awaits o j s parts := by
    intro t' ht' howner' hended'
    obtain ⟨s'', parts, hawaits⟩ := hw j t' o ht' howner' hended'
    have hne : i ≠ o := by
      rintro rfl
      exact hended' (gathered j t' ht' howner')
    refine ⟨s'', parts, ?_, hawaits.stage, hawaits.asks, hawaits.isPart⟩
    rw [strands, List.getElem?_set_ne hne, List.getElem?_append_left (lt_of_here hawaits.here),
      hawaits.here]
  rw [strands] at ht
  obtain ⟨rfl, rfl⟩ | ⟨-, ht⟩ := getElem?_set_cases ht
  · exact hold here (owner.symm.trans howner) (atWork hended)
  · by_cases hj : j < w.strands.length
    · rw [List.getElem?_append_left hj] at ht
      exact hold ht howner hended
    · obtain hnone | ⟨hsome, parts, hawaits⟩ := fresh j t (Nat.not_lt.mp hj) ht
      · cases hnone.symm.trans howner
      · cases hsome.symm.trans howner
        exact ⟨s', parts, hawaits⟩

/-- A strand is divided, and waits for its parts. -/
theorem Tends.divide {jobs : List Job} {next : Option (List Outcome) → Steward (Outcome ⊕ β)}
    (hw : w.Tends) (here : w.strands[i]? = some s) (runs : s.stage = .running)
    (asks : s.program = .ask (.wait (.all jobs)) next) : (w.divide program i s jobs).Tends := by
  refine hw.set here rfl rfl rfl (fun _ hended => nomatch runs.symm.trans hended)
    (hw.gathered_of_running here runs) fun j t hle ht => .inr ?_
  have hlt := (List.getElem?_eq_some_iff.mp ht).1
  have hi : i < (w.strands ++ jobs.map (s.ofJob program (some i))).length :=
    Nat.lt_of_lt_of_le (lt_of_here here) (by simp)
  rw [List.getElem?_append_right hle] at ht
  obtain ⟨job, -, rfl⟩ := List.mem_map.mp (List.mem_of_getElem? ht)
  refine ⟨rfl, _, List.getElem?_set_self hi, rfl, ⟨jobs, next, asks⟩, ?_⟩
  rw [Weave.fresh, List.mem_range'_1]
  exact ⟨hle, by simpa using hlt⟩

theorem Tends.stride (hw : w.Tends) (h : Stride program w u) : u.Tends := by
  have hset : ∀ {i : Nat} {s s' : Strand β} {l : List (Strand β)}, w.strands[i]? = some s →
      u.strands = l.set i s' → l = w.strands → s'.owner = s.owner →
      (s'.stage ≠ .ended → s.stage ≠ .ended) → w.Gathered i → u.Tends := by
    intro i s s' l here strands same owner atWork gathered
    refine hw.set here strands (same.trans (List.append_nil _).symm) owner atWork gathered
      fun j t hle ht => ?_
    rw [List.append_nil, List.getElem?_eq_none hle] at ht
    cases ht
  cases h with
  | begin here isIdle =>
    refine hset here strands_put rfl rfl (fun _ h => nomatch isIdle.symm.trans h) (hw.gathered here ?_)
    exact fun _ _ _ hwaits => nomatch isIdle.symm.trans hwaits
  | finish here runs | halt here runs =>
    exact hset here strands_put rfl rfl (fun _ h => nomatch runs.symm.trans h)
      (hw.gathered_of_running here runs)
  | wait here runs =>
    exact hset here strands_put (strands_enter _) rfl (fun _ h => nomatch runs.symm.trans h)
      (hw.gathered_of_running here runs)
  | divide here runs asks => exact hw.divide here runs asks
  | refuse here runs =>
    exact hset here strands_resume rfl rfl (fun _ h => nomatch runs.symm.trans h)
      (hw.gathered_of_running here runs)
  | goOn here waits asks isOver =>
    refine hset here strands_resume rfl rfl (fun _ h => nomatch waits.symm.trans h)
      (hw.gathered here ?_)
    rintro _ jobs _ - hasks
    cases asks.symm.trans hasks
    exact isOver
  | interrupt here waits asks simple =>
    refine hset here strands_resume (strands_withdraw _) rfl
      (fun _ h => nomatch waits.symm.trans h) (hw.gathered here ?_)
    rintro _ jobs _ - hasks
    cases asks.symm.trans hasks
    exact simple jobs rfl
  | gather here waits asks ended =>
    refine hset here strands_resume rfl rfl (fun _ h => nomatch waits.symm.trans h)
      (hw.gathered_of_ended here waits fun f hf => ?_)
    obtain ⟨o, -, ho⟩ := List.mem_map.mp (ended ▸ List.mem_map_of_mem hf)
    rw [← ho]
    rfl
  | abandon here waits asks ended =>
    exact hset here strands_resume rfl rfl (fun _ h => nomatch waits.symm.trans h)
      (hw.gathered_of_ended here waits ended)
  | @act i s a next answer here runs asks fits =>
    have hserve : (w.serve program s a).strands = w.strands ∨ ∃ k, a = .spawn k ∧
        (w.serve program s a).strands = w.strands ++ [s.ofJob program none k] := strands_serve a
    obtain hs | ⟨k, -, hs⟩ := hserve
    · exact hset here strands_resume hs rfl (fun _ h => nomatch runs.symm.trans h)
        (hw.gathered_of_running here runs)
    · refine hw.set here strands_resume hs rfl (fun _ h => nomatch runs.symm.trans h)
        (hw.gathered_of_running here runs) fun j t hle ht => .inl ?_
      rw [List.getElem?_append_right hle] at ht
      rw [List.mem_singleton.mp (List.mem_of_getElem? ht)]
      rfl

/-- **A strand goes on when all of its parts have ended.** -/
theorem gathered_of_running {mains : List (Steward β)} (h : Strides program (start mains) w)
    (here : w.strands[i]? = some s) (runs : s.stage = .running) : w.Gathered i := by
  have htends : w.Tends := by
    clear here runs
    induction h with
    | refl =>
      intro j t o ht howner
      obtain ⟨p, -, rfl⟩ := start_here ht
      cases howner
    | step _ hstep ih => exact ih.stride hstep
  exact htends.gathered_of_running here runs

end Weave

end CertSteward
