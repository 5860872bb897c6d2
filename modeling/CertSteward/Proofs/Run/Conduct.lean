import CertSteward.Run.Act

/-!
# How programs conduct themselves

A program is a tree of requests, so what it does can be said without a machine: along every path
of answers it asks for this and ends with that. Two things are said of paths here. `Goes` follows
one path and tells what is left of the program at its end. A *conduct* follows all of them: it has
a state of its own, says which requests may be made in it and how each answer changes it, and
`Keeps` says that a program keeps to it whatever the answers are.

Nothing is assumed of the answers but that a wait is interrupted only while the program watches for
its cancellation, and that a wait for jobs ends with an outcome of each.

## Main definitions

* `Act.CanGet`, `Act.watching` — which answers there can be, and who can be interrupted after them
* `Steward.Goes` — what is left of a program after some answers
* `Conduct`, `Conduct.Keeps` — requests that may be made, and programs that make no others
* `Steward.Only` — programs all of whose requests are of one kind
* `Steward.Yields` — programs all of whose results are of one kind
* `Steward.CanGoOn`, `Steward.NeverStuck` — programs that have ended or get an answer

## Main results

* `Conduct.keeps_bind`, `keeps_run_bind` — conduct is kept by one part after the other
* `Conduct.Keeps.of_only`, `Keeps.of_may` — requests that the conduct does not care for
* `Conduct.Keeps.goes` — who keeps to a conduct keeps to it on every path
-/

namespace CertSteward

/-! ### Answers -/

/-- Whether waits can be interrupted after the answer to a request, if `b` says it before. -/
def Act.watching (b : Bool) : (a : Act) → a.Answer → Bool
  | .watch, isOn => b || isOn
  | .unwatch, _ => false
  | _, _ => b

/-- Whether a request can get an answer: a wait is interrupted only while that can be, and of jobs
that were waited for each has an outcome. -/
def Act.CanGet (b : Bool) : (a : Act) → a.Answer → Prop
  | .wait _, none => b = true
  | .wait (.all jobs), some outcomes => outcomes.length = jobs.length
  | _, _ => True

@[simp] theorem Act.canGet_wait_none {b : Bool} {w : Wait} :
    (Act.wait w).CanGet b none ↔ b = true := by
  cases w <;> rfl

theorem TableAct.exists_answer {κ ν : Type} (a : TableAct κ ν) : Nonempty a.Answer := by
  cases a with
  | obtain => exact ⟨(0 : Nat)⟩
  | find | value => exact ⟨none⟩
  | tryEnter => exact ⟨true⟩
  | _ => exact ⟨()⟩

theorem StoreRequest.exists_reply (q : StoreRequest) : Nonempty q.Reply := by
  cases q with
  | save => exact ⟨.ok ()⟩
  | load | find | resolve => exact ⟨.ok none⟩
  | list => exact ⟨.ok []⟩
  | delete => exact ⟨.ok true⟩

/-- There is an answer to every request but to stop for good. -/
theorem Act.exists_canGet {a : Act} (h : a ≠ .halt) (b : Bool) : ∃ answer, a.CanGet b answer := by
  cases a with
  | halt => exact absurd rfl h
  | wait v =>
    cases v with
    | all jobs => exact ⟨some (jobs.map fun _ => .finished), List.length_map ..⟩
    | join f => exact ⟨some .finished, trivial⟩
    | _ => exact ⟨some (), trivial⟩
  | now | attempts _ | newPermits _ | spawn _ => exact ⟨(0 : Nat), trivial⟩
  | wallClock => exact ⟨default, trivial⟩
  | freshName => exact ⟨"", trivial⟩
  | freshKey spec => exact ⟨.error (.keyGeneration ""), trivial⟩
  | authority q => exact ⟨(.error .cancelled, 0), trivial⟩
  | dns q =>
    cases q with
    | create => exact ⟨(.error (.apiRequest ""), none), trivial⟩
    | settle => exact ⟨(), trivial⟩
    | _ => exact ⟨.error (.apiRequest ""), trivial⟩
  | lookUp => exact ⟨(.error "", 0), trivial⟩
  | records q => exact q.exists_reply.elim fun answer => ⟨answer, trivial⟩
  | counts => exact ⟨{}, trivial⟩
  | slots a => exact a.exists_answer.elim fun answer => ⟨answer, trivial⟩
  | locks a => exact a.exists_answer.elim fun answer => ⟨answer, trivial⟩
  | isCancelled | watch => exact ⟨true, trivial⟩
  | note | setAttempts | givePermit | cancel | unwatch => exact ⟨(), trivial⟩

/-- A request together with its answer. -/
abbrev Happening := (a : Act) × a.Answer

namespace Steward

variable {α β : Type}

/-! ### One path -/

/-- `Goes b p path c q`: along `path`, each answer of which can be had, a program `p` whose waits
can be interrupted if `b` says so becomes `q`, with `c` in the place of `b`. -/
inductive Goes : Bool → Steward α → List Happening → Bool → Steward α → Prop
  | stay (b : Bool) (p : Steward α) : Goes b p [] b p
  | ask {b c : Bool} {a : Act} {next : a.Answer → Steward α} {answer : a.Answer}
      {path : List Happening} {q : Steward α} (possible : a.CanGet b answer)
      (rest : Goes (a.watching b answer) (next answer) path c q) :
      Goes b (.ask a next) (⟨a, answer⟩ :: path) c q

/-- Along `path` a program ends with a result. -/
def Ends (b : Bool) (p : Steward α) (path : List Happening) (c : Bool) (result : α) : Prop :=
  Goes b p path c (.done result)

theorem ends_done_iff {b c : Bool} {a result : α} {path : List Happening} :
    Ends b (.done a) path c result ↔ path = [] ∧ c = b ∧ result = a := by
  constructor
  · rintro ⟨⟩
    exact ⟨rfl, rfl, rfl⟩
  · rintro ⟨rfl, rfl, rfl⟩
    exact .stay _ _

theorem ends_ask_iff {b c : Bool} {a : Act} {next : a.Answer → Steward α} {result : α}
    {path : List Happening} :
    Ends b (.ask a next) path c result ↔ ∃ answer rest, path = ⟨a, answer⟩ :: rest ∧
      a.CanGet b answer ∧ Ends (a.watching b answer) (next answer) rest c result := by
  constructor
  · intro h
    cases h with
    | ask possible rest => exact ⟨_, _, rfl, possible, rest⟩
  · rintro ⟨answer, rest, rfl, possible, h⟩
    exact .ask possible h

theorem ends_perform_iff {b c : Bool} {a : Act} {answer : a.Answer} {path : List Happening} :
    Ends b (perform a) path c answer ↔
      path = [⟨a, answer⟩] ∧ a.CanGet b answer ∧ c = a.watching b answer := by
  rw [perform, Program.request, ends_ask_iff]
  constructor
  · rintro ⟨answer', rest, rfl, possible, h⟩
    obtain ⟨rfl, rfl, rfl⟩ := ends_done_iff.mp h
    exact ⟨rfl, possible, rfl⟩
  · rintro ⟨rfl, possible, rfl⟩
    exact ⟨answer, [], rfl, possible, .stay _ _⟩

/-- A path to the end of two programs in a row passes through the end of the first. -/
theorem ends_bind_iff {b c : Bool} {p : Steward α} {f : α → Steward β} {result : β}
    {path : List Happening} :
    Ends b (p >>= f) path c result ↔ ∃ first second d a, path = first ++ second ∧
      Ends b p first d a ∧ Ends d (f a) second c result := by
  induction p generalizing b path with
  | done a =>
    constructor
    · exact fun h => ⟨[], path, b, a, rfl, .stay _ _, h⟩
    · rintro ⟨first, second, d, a', rfl, h, h'⟩
      obtain ⟨rfl, rfl, rfl⟩ := ends_done_iff.mp h
      exact h'
  | ask r next ih =>
    rw [Program.ask_bind, ends_ask_iff]
    constructor
    · rintro ⟨answer, rest, rfl, possible, h⟩
      obtain ⟨first, second, d, a, rfl, hp, hf⟩ := (ih answer).mp h
      exact ⟨⟨r, answer⟩ :: first, second, d, a, rfl, .ask possible hp, hf⟩
    · rintro ⟨first, second, d, a, rfl, hp, hf⟩
      obtain ⟨answer, rest, rfl, possible, h⟩ := ends_ask_iff.mp hp
      exact ⟨answer, rest ++ second, rfl, possible, (ih answer).mpr ⟨_, _, _, _, rfl, h, hf⟩⟩

/-- A path through two programs in a row ends before a request of the first, or passes through the
end of the first. -/
theorem goes_bind {b c : Bool} {p : Steward α} {f : α → Steward β} {q : Steward β}
    {path : List Happening} (h : Goes b (p >>= f) path c q) :
    (∃ a next, Goes b p path c (.ask a next) ∧ q = .ask a fun answer => next answer >>= f) ∨
      ∃ first second d a, path = first ++ second ∧ Ends b p first d a ∧
        Goes d (f a) second c q := by
  induction p generalizing b path with
  | done a => exact .inr ⟨[], path, b, a, rfl, .stay _ _, h⟩
  | ask r next ih =>
    rw [Program.ask_bind] at h
    cases h with
    | stay => exact .inl ⟨r, next, .stay _ _, rfl⟩
    | ask possible rest =>
      obtain ⟨a, next', hp, rfl⟩ | ⟨first, second, d, a, rfl, hp, hf⟩ := ih _ rest
      · exact .inl ⟨a, next', .ask possible hp, rfl⟩
      · exact .inr ⟨_, second, d, a, rfl, .ask possible hp, hf⟩

/-- A program that has ended or can go on. -/
def CanGoOn (b : Bool) : Steward α → Prop
  | .done _ => True
  | .ask a _ => ∃ answer, a.CanGet b answer

/-- Whatever a program is answered, it can go on until it has ended. -/
def NeverStuck (b : Bool) (p : Steward α) : Prop := ∀ path c q, Goes b p path c q → CanGoOn c q

theorem neverStuck_pure {b : Bool} {a : α} : NeverStuck b (pure a : Steward α) := by
  intro path c q h
  cases h
  trivial

theorem neverStuck_perform {b : Bool} {a : Act} (h : a ≠ .halt) : NeverStuck b (perform a) := by
  intro path c q hq
  cases hq with
  | stay => exact a.exists_canGet h b
  | ask _ rest =>
    cases rest
    trivial

/-- A path through two programs in a row, the first of which is never stuck, passes through the end
of the first if it gets stuck. -/
theorem NeverStuck.goes_bind {b c : Bool} {p : Steward α} {f : α → Steward β} {q : Steward β}
    {path : List Happening} (hp : NeverStuck b p) (h : Goes b (p >>= f) path c q) :
    CanGoOn c q ∨ ∃ first second d a, path = first ++ second ∧ Ends b p first d a ∧
      Goes d (f a) second c q := by
  obtain ⟨a, next, hgoes, rfl⟩ | hpast := Steward.goes_bind h
  · exact .inl (hp path c _ hgoes)
  · exact .inr hpast

theorem NeverStuck.bind {b : Bool} {p : Steward α} {f : α → Steward β} (hp : NeverStuck b p)
    (hf : ∀ path d a, Ends b p path d a → NeverStuck d (f a)) : NeverStuck b (p >>= f) := by
  intro path c q h
  obtain hq | ⟨first, second, d, a, rfl, hend, hgoes⟩ := hp.goes_bind h
  · exact hq
  · exact hf first d a hend second c q hgoes

/-- However a program ends, its result satisfies `Q`. -/
def Yields (Q : α → Prop) (p : Steward α) : Prop := ∀ b path c a, Ends b p path c a → Q a

theorem yields_pure {Q : α → Prop} {a : α} (h : Q a) : Yields Q (pure a) := by
  intro b path c a' he
  obtain ⟨-, -, rfl⟩ := ends_done_iff.mp he
  exact h

/-- The results of two programs in a row are those of the second. -/
theorem Yields.bind {Q : β → Prop} {p : Steward α} {f : α → Steward β}
    (hf : ∀ a, Yields Q (f a)) : Yields Q (p >>= f) := by
  intro b path c a h
  obtain ⟨_, second, d, a', -, -, h'⟩ := ends_bind_iff.mp h
  exact hf a' d second c a h'

/-! ### Programs with requests of one kind -/

/-- All requests of a program satisfy `S`. -/
def Only (S : Act → Prop) : Steward α → Prop
  | .done _ => True
  | .ask a next => S a ∧ ∀ answer, Only S (next answer)

variable {S : Act → Prop}

@[simp] theorem only_pure (a : α) : Only S (pure a : Steward α) := trivial

theorem only_perform {a : Act} (h : S a) : Only S (perform a) := ⟨h, fun _ => trivial⟩

theorem Only.bind {p : Steward α} {f : α → Steward β} (hp : Only S p) (hf : ∀ a, Only S (f a)) :
    Only S (p >>= f) := by
  induction p with
  | done a => exact hf a
  | ask a next ih => exact ⟨hp.1, fun answer => ih answer (hp.2 answer)⟩

theorem Only.mono {T : Act → Prop} {p : Steward α} (h : Only S p) (hST : ∀ a, S a → T a) :
    Only T p := by
  induction p with
  | done a => trivial
  | ask a next ih => exact ⟨hST a h.1, fun answer => ih answer (h.2 answer)⟩

theorem only_run_pure (a : α) : Only S (pure a : Watched α).run := trivial

theorem only_run_perform {a : Act} (h : S a) : Only S (liftM (perform a) : Watched a.Answer).run :=
  (only_perform h).bind fun _ => only_pure _

/-- All requests of two programs in a row that can be interrupted satisfy `S`. -/
theorem Only.run_bind {p : Watched α} {f : α → Watched β} (hp : Only S p.run)
    (hf : ∀ a, Only S (f a).run) : Only S (p >>= f).run :=
  hp.bind fun
    | some a => hf a
    | none => only_pure none

theorem Only.loop {σ : Type} {body : σ → Watched (σ ⊕ α)} {exhausted : Watched α}
    (hbody : ∀ s, Only S (body s).run) (hexhausted : Only S exhausted.run) :
    ∀ rounds s, Only S (Program.loop body exhausted rounds s).run := by
  intro rounds
  induction rounds with
  | zero => exact fun _ => hexhausted
  | succ rounds ih =>
    intro s
    refine (hbody s).run_bind fun x => ?_
    cases x with
    | inl s => exact ih s
    | inr a => exact only_pure _

theorem Only.mapM {f : α → Steward β} (hf : ∀ a, Only S (f a)) (l : List α) :
    Only S (l.mapM f) := by
  suffices h : ∀ done, Only S (List.mapM.loop f l done) from h []
  induction l with
  | nil => exact fun _ => only_pure _
  | cons a l ih => exact fun done => (hf a).bind fun b => ih (b :: done)

theorem Only.foldlM {f : β → α → Steward β} (hf : ∀ x a, Only S (f x a)) (l : List α) (x : β) :
    Only S (l.foldlM f x) := by
  induction l generalizing x with
  | nil => exact only_pure x
  | cons a l ih =>
    rw [List.foldlM_cons]
    exact (hf x a).bind ih

end Steward

/-! ### Conduct -/

/-- How a program is to conduct itself. -/
structure Conduct (σ : Type) where
  /-- Whether a request may be made, in a state and with waits that can be interrupted or not. -/
  may : Bool → σ → Act → Prop
  /-- The state after an answer. -/
  next : σ → (a : Act) → a.Answer → σ

namespace Conduct

variable {σ α β : Type} (C : Conduct σ)

/-- From a state on a program makes only requests that may be made, and ends as `Q` says. -/
def Keeps (Q : Bool → σ → α → Prop) : Bool → σ → Steward α → Prop
  | b, s, .done a => Q b s a
  | b, s, .ask a next => C.may b s a ∧ ∀ answer, a.CanGet b answer →
      Keeps Q (a.watching b answer) (C.next s a answer) (next answer)

variable {C} {Q R : Bool → σ → α → Prop} {b : Bool} {s : σ}

@[simp] theorem keeps_pure {a : α} : C.Keeps Q b s (pure a) ↔ Q b s a := Iff.rfl

@[simp] theorem keeps_done {a : α} : C.Keeps Q b s (.done a) ↔ Q b s a := Iff.rfl

theorem keeps_ask {a : Act} {next : a.Answer → Steward α} :
    C.Keeps Q b s (.ask a next) ↔ C.may b s a ∧ ∀ answer, a.CanGet b answer →
      C.Keeps Q (a.watching b answer) (C.next s a answer) (next answer) := Iff.rfl

theorem keeps_perform {a : Act} {Q : Bool → σ → a.Answer → Prop} :
    C.Keeps Q b s (perform a) ↔ C.may b s a ∧ ∀ answer, a.CanGet b answer →
      Q (a.watching b answer) (C.next s a answer) answer := Iff.rfl

theorem Keeps.mono {p : Steward α} (h : C.Keeps Q b s p)
    (hQR : ∀ b s a, Q b s a → R b s a) : C.Keeps R b s p := by
  induction p generalizing b s with
  | done a => exact hQR b s a h
  | ask a next ih => exact ⟨h.1, fun answer possible => ih answer (h.2 answer possible)⟩

/-- Conduct is kept by one program after the other. -/
theorem keeps_bind {p : Steward α} {f : α → Steward β} {Q : Bool → σ → β → Prop} :
    C.Keeps Q b s (p >>= f) ↔ C.Keeps (fun b s a => C.Keeps Q b s (f a)) b s p := by
  induction p generalizing b s with
  | done a => rfl
  | ask a next ih =>
    rw [Program.ask_bind, keeps_ask, keeps_ask]
    exact and_congr_right fun _ => forall₂_congr fun answer _ => ih answer

theorem keeps_map {p : Steward α} {f : α → β} {Q : Bool → σ → β → Prop} :
    C.Keeps Q b s (f <$> p) ↔ C.Keeps (fun b s a => Q b s (f a)) b s p := by
  change C.Keeps Q b s (p >>= fun a => pure (f a)) ↔ _
  rw [keeps_bind]
  rfl

/-- Conduct is kept by one program that can be interrupted after the other. -/
theorem keeps_run_bind {p : Watched α} {f : α → Watched β} {Q : Bool → σ → Option β → Prop} :
    C.Keeps Q b s (p >>= f).run ↔
      C.Keeps (fun b s o => o.elim (Q b s none) fun a => C.Keeps Q b s (f a).run) b s p.run := by
  have : (p >>= f).run = p.run >>= fun o => o.elim (pure none) fun a => (f a).run := by
    change (p.run >>= fun o => _) = _
    congr 1
    funext o
    cases o <;> rfl
  rw [this, keeps_bind]
  constructor <;> refine fun h => h.mono fun b s o ho => ?_ <;> cases o <;> exact ho

theorem keeps_run_lift {p : Steward α} {Q : Bool → σ → Option α → Prop} :
    C.Keeps Q b s (monadLift p : Watched α).run ↔ C.Keeps (fun b s a => Q b s (some a)) b s p :=
  keeps_bind

theorem keeps_run_perform {a : Act} {Q : Bool → σ → Option a.Answer → Prop} :
    C.Keeps Q b s (liftM (perform a) : Watched a.Answer).run ↔ C.may b s a ∧
      ∀ answer, a.CanGet b answer → Q (a.watching b answer) (C.next s a answer) (some answer) :=
  keeps_run_lift

theorem keeps_run_await {v : Wait} {Q : Bool → σ → Option v.Answer → Prop} :
    C.Keeps Q b s (await v).run ↔ C.may b s (.wait v) ∧
      ∀ answer, (Act.wait v).CanGet b answer → Q b (C.next s (.wait v) answer) answer :=
  Iff.rfl

/-- Requests that may be made and change nothing keep to the conduct. -/
theorem Keeps.of_only {S : Act → Prop} {p : Steward α} (h : Steward.Only S p)
    (may : ∀ b a, S a → C.may b s a) (same : ∀ a answer, S a → C.next s a answer = s)
    (watching : ∀ b a answer, S a → a.watching b answer = b) :
    C.Keeps (fun c t _ => c = b ∧ t = s) b s p := by
  induction p generalizing b with
  | done a => exact ⟨rfl, rfl⟩
  | ask a next ih =>
    refine ⟨may b a h.1, fun answer _ => ?_⟩
    rw [same a answer h.1, watching b a answer h.1]
    exact ih answer (h.2 answer)

/-- Requests that may be made anywhere and change nothing leave the state as it is. -/
theorem Keeps.of_only_stay {S : Act → Prop} {p : Steward α} (h : Steward.Only S p)
    (may : ∀ b a, S a → C.may b s a) (same : ∀ a answer, S a → C.next s a answer = s) :
    C.Keeps (fun _ t _ => t = s) b s p := by
  induction p generalizing b with
  | done a => rfl
  | ask a next ih =>
    refine ⟨may b a h.1, fun answer _ => ?_⟩
    rw [same a answer h.1]
    exact ih answer (h.2 answer)

/-- The result of a program that keeps to a conduct is one to which some path leads. -/
theorem Keeps.ends {p : Steward α} (h : C.Keeps Q b s p) :
    C.Keeps (fun c t a => Q c t a ∧ ∃ path, Steward.Ends b p path c a) b s p := by
  induction p generalizing b s with
  | done a => exact ⟨h, [], .stay _ _⟩
  | ask a next ih =>
    refine ⟨h.1, fun answer possible => (ih answer (h.2 answer possible)).mono ?_⟩
    rintro c t x ⟨hQ, path, hpath⟩
    exact ⟨hQ, _, .ask possible hpath⟩

/-- A program for each element of a list, with nothing but a state to keep. -/
theorem keeps_forMapM {β : Type} {f : α → Steward β} {I : Bool → σ → Prop} {l : List α}
    (hf : ∀ a ∈ l, ∀ b s, I b s → C.Keeps (fun b s _ => I b s) b s (f a)) (hI : I b s) :
    C.Keeps (fun b s _ => I b s) b s (l.mapM f) := by
  suffices h : ∀ done, C.Keeps (fun b s _ => I b s) b s (List.mapM.loop f l done) from h []
  induction l generalizing b s with
  | nil => exact fun _ => hI
  | cons a l ih =>
    refine fun done => keeps_bind.mpr ((hf a List.mem_cons_self b s hI).mono fun b s x hx => ?_)
    exact ih (fun a ha => hf a (List.mem_cons_of_mem _ ha)) hx (x :: done)

/-- A conduct that allows requests of one kind only. -/
def among (C : Conduct σ) (S : Act → Prop) : Conduct σ where
  may b s a := C.may b s a ∧ S a
  next := C.next

theorem Keeps.among {S : Act → Prop} {p : Steward α} (h : C.Keeps Q b s p)
    (hp : Steward.Only S p) : (C.among S).Keeps Q b s p := by
  induction p generalizing b s with
  | done a => exact h
  | ask a next ih =>
    exact ⟨⟨h.1, hp.1⟩, fun answer possible => ih answer (h.2 answer possible) (hp.2 answer)⟩

/-- Who keeps to a conduct keeps to any other that allows the same and that none of it concerns. -/
theorem Keeps.of_may {τ : Type} {D : Conduct τ} {t : τ} {p : Steward α} (h : C.Keeps Q b s p)
    (may : ∀ b s a, C.may b s a → D.may b t a ∧ ∀ answer, D.next t a answer = t) :
    D.Keeps (fun c t' a => t' = t ∧ ∃ s, Q c s a) b t p := by
  induction p generalizing b s with
  | done a => exact ⟨rfl, s, h⟩
  | ask a next ih =>
    obtain ⟨hmay, hsame⟩ := may b s a h.1
    refine ⟨hmay, fun answer possible => ?_⟩
    rw [hsame answer]
    exact ih answer (h.2 answer possible)

/-- A program for each element of a list, from one result to the next. -/
theorem keeps_foldlM {β : Type} {f : β → α → Steward β} {I : Bool → σ → β → Prop} {l : List α}
    {x : β} (hf : ∀ a ∈ l, ∀ b s x, I b s x → C.Keeps I b s (f x a)) (hI : I b s x) :
    C.Keeps I b s (l.foldlM f x) := by
  induction l generalizing b s x with
  | nil => exact hI
  | cons a l ih =>
    rw [List.foldlM_cons]
    refine keeps_bind.mpr ((hf a List.mem_cons_self b s x hI).mono fun b s x hx => ?_)
    exact ih (fun a ha => hf a (List.mem_cons_of_mem _ ha)) hx

/-- Two conducts at once. -/
def both {τ : Type} (C : Conduct σ) (D : Conduct τ) : Conduct (σ × τ) where
  may b s a := C.may b s.1 a ∧ D.may b s.2 a
  next s a answer := (C.next s.1 a answer, D.next s.2 a answer)

theorem Keeps.both {τ : Type} {D : Conduct τ} {t : τ} {R : Bool → τ → α → Prop} {p : Steward α}
    (h : C.Keeps Q b s p) (h' : D.Keeps R b t p) :
    (C.both D).Keeps (fun b x a => Q b x.1 a ∧ R b x.2 a) b (s, t) p := by
  induction p generalizing b s t with
  | done a => exact ⟨h, h'⟩
  | ask a next ih =>
    exact ⟨⟨h.1, h'.1⟩, fun answer possible => ih answer (h.2 answer possible) (h'.2 answer possible)⟩

/-- A conduct that looks at a part of the state only. -/
theorem Keeps.comap {τ : Type} {D : Conduct τ} {f : τ → σ} {t : τ} {p : Steward α}
    (may : ∀ b t a, C.may b (f t) a → D.may b t a)
    (next : ∀ t a answer, f (D.next t a answer) = C.next (f t) a answer)
    (h : C.Keeps Q b (f t) p) : D.Keeps (fun b t a => Q b (f t) a) b t p := by
  induction p generalizing b t with
  | done a => exact h
  | ask a p ih =>
    refine ⟨may b t a h.1, fun answer possible => ih answer ?_⟩
    rw [next]
    exact h.2 answer possible

/-- A conduct that forgets a part of the state. -/
theorem Keeps.forget {τ : Type} {D : Conduct τ} {f : σ → τ} {p : Steward α}
    (h : C.Keeps Q b s p) (may : ∀ b s a, C.may b s a → D.may b (f s) a)
    (next : ∀ s a answer, D.next (f s) a answer = f (C.next s a answer)) :
    D.Keeps (fun b t x => ∃ s, t = f s ∧ Q b s x) b (f s) p := by
  induction p generalizing b s with
  | done a => exact ⟨s, rfl, h⟩
  | ask a p ih =>
    refine ⟨may b s a h.1, fun answer possible => ?_⟩
    rw [next]
    exact ih answer (h.2 answer possible)

/-- Who keeps to a conduct keeps to it on every path. -/
theorem Keeps.goes {p q : Steward α} {c : Bool} {path : List Happening} (h : C.Keeps Q b s p)
    (hp : Steward.Goes b p path c q) :
    C.Keeps Q c (path.foldl (fun s e => C.next s e.1 e.2) s) q := by
  induction hp generalizing s with
  | stay b p => exact h
  | ask possible rest ih => exact ih (h.2 _ possible)

/-- Who keeps to a conduct that does not let it stop for good is never stuck. -/
theorem Keeps.neverStuck {p : Steward α} (h : C.Keeps Q b s p) (hhalt : ∀ b s, ¬ C.may b s .halt) :
    p.NeverStuck b := by
  intro path c q hp
  have hq := h.goes hp
  cases q with
  | done a => trivial
  | ask a next => exact a.exists_canGet (fun ha => hhalt _ _ (ha ▸ hq.1)) c

end Conduct

end CertSteward
