import CertSteward.Issuance.Run
import CertSteward.Proofs.Authority.Development
import CertSteward.Proofs.Dns.Provided
import CertSteward.Proofs.Run.Following

/-!
# A run and its surroundings

A run under way that nobody interrupts can be followed like any main program. It goes on with the
result of each step, or ends with the first fault, and how far it came is known even then.

The development authority answers at once, and only the failures that were injected are worth
another try. All of them are used up by the first call of a run, if it is tried often enough.

## Main definitions

* `Driving.Comes` — what a run under way comes to, with what holds after success and after failure
* `World.told` — the surroundings after an answer of the authority
* `Site` — the surroundings of a run: an authority, records in memory, and domains

## Main results

* `Comes.bind`, `Comes.call`, `Comes.forM`, `Comes.orCancelled` — one rule for each way in which the
  steps of a run are put together
* `Site.call` — a call that is not to be tried again
* `Site.call_ensureAccount` — the first call of a run
-/

namespace CertSteward

/-- A run under way that is not cancelled goes through the program. If it succeeds, `P` holds of how
far it is, of its surroundings and of its result then, and if it fails, `E` holds of them and of the
fault. -/
def Driving.Comes {α : Type} (program : Job → Steward Outcome)
    (E : RunState → World → IssuanceError → Prop) (P : RunState → World → α → Prop) (s : RunState)
    (w : World) (m : Driving α) : Prop :=
  Gets program true (m.run.run s) w true fun x w => match x.1 with
    | .ok a => P x.2 w a
    | .error e => E x.2 w e

namespace Driving.Comes

variable {α β : Type} {program : Job → Steward Outcome} {settings : IssuanceSettings}
variable {E : RunState → World → IssuanceError → Prop} {P P' : RunState → World → α → Prop}
variable {s : RunState} {w w' : World} {m : Driving α}

theorem mono (h : Comes program E P' s w m) (hP : ∀ s w a, P' s w a → P s w a) :
    Comes program E P s w m := by
  refine Gets.mono h fun x w hx => ?_
  obtain ⟨x, s⟩ := x
  cases x with
  | ok a => exact hP s w a hx
  | error e => exact hx

theorem of_done {x : Except IssuanceError α × RunState} (hrun : m.run.run s = .done x)
    (h : match x.1 with
      | .ok a => P x.2 w a
      | .error e => E x.2 w e) : Comes program E P s w m := by
  rw [Comes, hrun]
  exact Gets.pure h

theorem of_ok {s' : RunState} {a : α} (hrun : m.run.run s = .done (.ok a, s')) (h : P s' w a) :
    Comes program E P s w m :=
  of_done hrun h

theorem pure {a : α} (h : P s w a) : Comes program E P s w (pure a) := of_done rfl h

theorem throw {e : IssuanceError} (h : E s w e) : Comes program E P s w (throw e) := of_done rfl h

theorem bind {m : Driving β} {f : β → Driving α}
    (h : Comes program E (fun s w b => Comes program E P s w (f b)) s w m) :
    Comes program E P s w (m >>= f) := by
  have hrun : (m >>= f).run.run s = m.run.run s >>= fun x => match x with
      | (.ok b, s) => (f b).run.run s
      | (.error e, s) => Pure.pure (.error e, s) := by
    change (m.run.run s >>= _) = _
    congr 1
    funext ⟨x, s⟩
    cases x <;> rfl
  rw [Comes, hrun]
  refine Gets.bind h ?_
  rintro ⟨x, s⟩ w hx
  cases x with
  | ok b => exact hx
  | error e => exact Gets.pure hx

theorem get {P : RunState → World → RunState → Prop} (h : P s w s) : Comes program E P s w get :=
  of_done rfl h

theorem modify {f : RunState → RunState} {P : RunState → World → PUnit → Prop} (h : P (f s) w ()) :
    Comes program E P s w (modify f) :=
  of_done rfl h

/-- An event that belongs to the state. -/
theorem advance {e : IssuanceEvent} (machine : IssuanceMachine) {P : RunState → World → Unit → Prop}
    (he : s.machine.apply e = .ok machine) (h : P { s with machine } w ()) :
    Comes program E P s w (advance e) := by
  refine .bind (.get ?_)
  rw [he]
  exact .modify h

/-- A request that is answered at once. -/
theorem follow {p : Steward α} {a : α} (hp : w.follows? p = some (a, w')) (h : P s w' a) :
    Comes program E P s w (liftM p) := by
  have hrun : ((liftM p : Driving α).run.run s) =
      p >>= fun a => Pure.pure ((Except.ok a : Except IssuanceError α), s) := by
    change ((p >>= fun a => Pure.pure (a, s)) >>=
      fun x => Pure.pure ((Except.ok x.1 : Except IssuanceError α), x.2)) = _
    rw [Program.bind_bind]
    rfl
  rw [Comes, hrun]
  exact Gets.of_follows? (World.follows?_bind_of hp) h

/-- A program that could have been interrupted. -/
theorem orCancelled {p : Watched α} (hp : Gets program true p.run w true fun x w =>
    ∃ a, x = some a ∧ P s w a) : Comes program E P s w (orCancelled p) := by
  have hrun : ((Driving.orCancelled p).run.run s) = p.run >>= fun x =>
      Pure.pure (x.elim (.error .cancelled) .ok, s) := by
    change (((p.run >>= fun a => Pure.pure (a, s)) >>=
      fun x => Pure.pure ((Except.ok x.1 : Except IssuanceError (Option α)), x.2)) >>= _) = _
    rw [Program.bind_bind, Program.bind_bind]
    congr 1
    funext x
    cases x <;> rfl
  rw [Comes, hrun]
  refine hp.bind ?_
  rintro _ w ⟨a, rfl, ha⟩
  exact Gets.pure ha

/-- A call that the authority answers in the end. -/
theorem call {retries : Nat} {r : AuthorityRequest} {reply : r.Reply}
    {P : RunState → World → r.Value → Prop}
    (hcall : w.follows? (callAuthority settings retries r).run = some (some reply, w'))
    (hok : ∀ v, reply = .ok v → P s w' v) (herror : ∀ e, reply = .error e → E s w' e) :
    Comes program E P s w (call settings retries r) := by
  refine .bind (.orCancelled (Gets.of_follows? hcall ⟨reply, rfl, ?_⟩))
  cases reply with
  | ok v => exact .pure (hok v rfl)
  | error e => exact .throw (herror e rfl)

/-- The DNS service gave an answer. -/
theorem ofDns {a : α} (h : P s w a) : Comes program E P s w (ofDns (.ok a)) := .pure h

/-- A program for each element of a list, where `I` holds of those that are done. -/
theorem forM {f : β → Driving PUnit} {I : List β → RunState → World → Prop} {l : List β}
    (hf : ∀ done b rest s w, l = done ++ b :: rest → I done s w →
      Comes program E (fun s w _ => I (done ++ [b]) s w) s w (f b)) (hI : I [] s w) :
    Comes program E (fun s w _ => I l s w) s w (l.forM f) := by
  suffices h : ∀ done rest s w, l = done ++ rest → I done s w →
      Comes program E (fun s w _ => I l s w) s w (rest.forM f) from h [] l s w rfl hI
  intro done rest
  induction rest generalizing done with
  | nil =>
    intro s w hl hI
    rw [List.append_nil] at hl
    exact .pure (hl ▸ hI)
  | cons b rest ih =>
    intro s w hl hI
    refine .bind ((hf done b rest s w hl hI).mono ?_)
    intro s w _ hI
    exact ih (done ++ [b]) s w (by simpa using hl) hI

/-- A loop over a list whose rounds keep `I` and never end it. -/
theorem forIn {f : β → PUnit → Driving (ForInStep PUnit)} {I : RunState → World → Prop}
    (hf : ∀ b s w, I s w → Comes program E (fun s w x => x = .yield ⟨⟩ ∧ I s w) s w (f b ⟨⟩)) :
    ∀ (l : List β) (s : RunState) (w : World), I s w →
      Comes program E (fun s w _ => I s w) s w (forIn l ⟨⟩ f) := by
  intro l
  induction l with
  | nil => exact fun s w hI => .pure hI
  | cons b l ih =>
    intro s w hI
    rw [List.forIn_cons]
    refine .bind ((hf b s w hI).mono ?_)
    rintro s w x ⟨rfl, hI⟩
    exact ih s w hI

end Driving.Comes

/-- The reading of the wall clock that follows another. -/
@[irreducible]
def Instant.next (t : Instant) : Instant :=
  if t.nanos + 1000 < 1000000000 then { t with nanos := t.nanos + 1000 }
  else { seconds := t.seconds + 1, nanos := t.nanos + 1000 - 1000000000 }

namespace World

variable {w : World} {a a' : DevelopmentAuthority} {r : AuthorityRequest} {reply : r.Reply}

theorem readClock_eq (w : World) : w.readClock = (w.wall.next, { w with wall := w.wall.next }) := by
  unfold readClock Instant.next
  rfl

/-- The surroundings when the authority has answered. -/
def told (w : World) (a : DevelopmentAuthority) : World :=
  { w with wall := w.wall.next, authority := .development a }

@[simp]
theorem wall_told : (w.told a).wall = w.wall.next := rfl

@[simp]
theorem clock_told : (w.told a).clock = w.clock := rfl

theorem follow?_authority (hw : w.authority = .development a)
    (h : a.answer w.wall.next r = (reply, a')) :
    w.follow? (.authority r) = some ((reply, (0 : Nat)), w.told a') := by
  rw [follow?, askAuthority, readClock_eq]
  simp only [hw, Authority.answer, h, told]

/-- On a whole millisecond a pause of no length is none. -/
theorem slept_zero (h : w.clock.IsWhole) : w.slept 0 = w := by
  obtain ⟨n, hn⟩ := h
  have hceil : Duration.ceilMillis (w.clock + 0) ≤ w.clock := by
    rw [hn]
    exact (by omega : (1000000 * n + 0 + 999999) / 1000000 * 1000000 ≤ 1000000 * n)
  rw [slept, Nat.max_eq_left hceil]

/-- The development authority answers at once. -/
theorem follows?_callOnce (hw : w.authority = .development a) (hclock : w.clock.IsWhole)
    (h : a.answer w.wall.next r = (reply, a')) (limit : Duration) :
    w.follows? (callOnce limit r).run = some (some reply, w.told a') := by
  have hcall : w.follows? (liftM (perform (.authority r)) : Watched _).run =
      some (some (reply, (0 : Nat)), w.told a') :=
    follows?_run_lift ((follows?_perform _).trans (follow?_authority hw h))
  have hpause : (w.told a').follows? (pause 0).run = some (some (), w.told a') := by
    refine (follows?_perform _).trans ?_
    exact congrArg (fun w => some (some (), w)) (slept_zero (w := w.told a') hclock)
  rw [callOnce, follows?_run_bind_of hcall]
  simp only [Nat.zero_le, if_true]
  rw [follows?_run_bind_of hpause]
  rfl

theorem follows?_callAuthority (hw : w.authority = .development a) (hclock : w.clock.IsWhole)
    (h : a.answer w.wall.next r = (reply, a'))
    (hfinal : ∀ e, reply = .error e → e.isRetryable = false) (settings : IssuanceSettings)
    (retries : Nat) :
    w.follows? (callAuthority settings retries r).run =
      some (some reply, w.told a') := by
  have hnow : w.follows? (liftM (perform .now) : Watched Duration).run = some (some w.clock, w) :=
    follows?_run_lift (follows?_perform _)
  rw [callAuthority, retry, follows?_run_bind_of hnow]
  exact follows?_retryFrom (follows?_callOnce hw hclock h _) hfinal _ _

end World

/-- The surroundings of a run: an authority, records in memory, and domains. -/
structure Site (locks : MutexTable String Unit) (a : DevelopmentAuthority) (d : MemoryDns)
    (w : World) : Prop where
  authority : w.authority = .development a
  ledger : Ledger w d
  whole : w.clock.IsWhole
  locks : w.locks = locks

namespace Site

variable {locks : MutexTable String Unit} {a a' : DevelopmentAuthority} {d : MemoryDns} {w : World}

theorem told (h : Site locks a d w) (a' : DevelopmentAuthority) :
    Site locks a' d (w.told a') where
  authority := rfl
  ledger := h.ledger.congr h.ledger.dns rfl rfl rfl
  whole := h.whole
  locks := h.locks

theorem slept (h : Site locks a d w) (time : Duration) : Site locks a d (w.slept time) where
  authority := h.authority
  ledger := h.ledger.congr h.ledger.dns rfl rfl rfl
  whole := h.whole.max (Duration.isWhole_ceilMillis _)
  locks := h.locks

variable {program : Job → Steward Outcome} {settings : IssuanceSettings} {s : RunState}
variable {E : RunState → World → IssuanceError → Prop} {retries : Nat} {r : AuthorityRequest}

/-- A call with a good answer. -/
theorem call {P : RunState → World → r.Value → Prop} {v : r.Value} (h : Site locks a d w)
    (hanswer : a.answer w.wall.next r = (.ok v, a')) (hP : P s (w.told a') v) :
    Driving.Comes program E P s w (Driving.call settings retries r) :=
  .call (World.follows?_callAuthority h.authority h.whole hanswer nofun settings retries)
    (fun v' hv => by cases hv; exact hP) nofun

end Site

/-! ### The first call -/

/-- Without a budget there is always a next delay. -/
theorem Backoff.exists_next? {b : Backoff} (hb : b.policy.budget = none) (elapsed : Duration) :
    ∃ delay b', b.next? elapsed = some (delay, b') ∧ b'.policy.budget = none := by
  have hgoes : b.isExhausted elapsed = false := by
    rw [isExhausted, hb]
  refine ⟨b.delay elapsed, { b with current := b.policy.grow b.current, attempts := b.attempts + 1 },
    ?_, hb⟩
  rw [next?, stepWith, hgoes]
  rfl

/-- What the first call comes to: an account if it is tried often enough, and a failure that was
injected otherwise. -/
structure DevelopmentAuthority.Ensures (a : DevelopmentAuthority) (retries : Nat)
    (reply : AuthorityRequest.ensureAccount.Reply) (a' : DevelopmentAuthority) : Prop extends
    a.Alike a' where
  orders : a'.orders = a.orders
  enough : a.failingCalls ≤ retries → reply = .ok () ∧ a'.failingCalls = 0
  tooMany : retries < a.failingCalls →
    reply = .error (.transient "ensure_account" "injected service unavailable")

namespace Site

variable {locks : MutexTable String Unit} {a : DevelopmentAuthority} {d : MemoryDns} {w : World}

/-- Each try of the first call uses up one of the failures. -/
theorem ensures (limit start : Duration) (retries : Nat) {b : Backoff} (h : Site locks a d w)
    (hb : b.policy.budget = none) :
    ∃ (reply : AuthorityRequest.ensureAccount.Reply) (a' : DevelopmentAuthority) (w' : World),
      w.follows? (retryFrom IssuanceError.isRetryable (callOnce limit .ensureAccount) start retries
        b).run = some (some reply, w') ∧ Site locks a' d w' ∧ a.Ensures retries reply a' := by
  induction retries generalizing a b w with
  | zero =>
    have hanswer := a.answer_ensureAccount w.wall.next
    by_cases hnone : a.failingCalls = 0
    · rw [if_pos hnone] at hanswer
      exact ⟨_, _, _, World.follows?_callOnce h.authority h.whole hanswer limit, h.told _,
        ⟨rfl, rfl, rfl, rfl, rfl, rfl⟩, rfl, fun _ => ⟨rfl, hnone⟩, fun hlt => by omega⟩
    · rw [if_neg hnone] at hanswer
      exact ⟨_, _, _, World.follows?_callOnce h.authority h.whole hanswer limit, h.told _,
        ⟨rfl, rfl, rfl, rfl, rfl, rfl⟩, rfl, fun hle => by omega, fun _ => rfl⟩
  | succ retries ih =>
    have hanswer := a.answer_ensureAccount w.wall.next
    by_cases hnone : a.failingCalls = 0
    · rw [if_pos hnone] at hanswer
      exact ⟨_, _, _, World.follows?_retryFrom
        (World.follows?_callOnce h.authority h.whole hanswer limit) nofun _ b, h.told _,
        ⟨rfl, rfl, rfl, rfl, rfl, rfl⟩, rfl, fun _ => ⟨rfl, hnone⟩, fun hlt => by omega⟩
    · rw [if_neg hnone] at hanswer
      let failed : DevelopmentAuthority :=
        { a with accountCalls := a.accountCalls + 1, failingCalls := a.failingCalls - 1 }
      have hfailed : a.Alike failed := ⟨rfl, rfl, rfl, rfl, rfl, rfl⟩
      have hcall := World.follows?_callOnce h.authority h.whole hanswer limit
      have htold : Site locks failed d (w.told failed) := h.told failed
      generalize w.told failed = told at hcall htold
      obtain ⟨delay, b', hnext, hb'⟩ := b.exists_next? hb (told.clock - start)
      obtain ⟨reply, a', w', hrest, hsite, hensures⟩ := ih (htold.slept delay) hb'
      refine ⟨reply, a', w', ?_, hsite, hfailed.trans hensures.toAlike, hensures.orders,
        fun hle => hensures.enough ?_, fun hlt => hensures.tooMany ?_⟩
      · have hnow : told.follows? (liftM (perform .now) : Watched Duration).run =
            some (some told.clock, told) := World.follows?_run_lift (World.follows?_perform _)
        have hpause : told.follows? (pause delay).run = some (some (), told.slept delay) :=
          World.follows?_perform _
        rw [retryFrom, World.follows?_run_bind_of hcall]
        change told.follows? ((liftM (perform .now) : Watched Duration) >>= _).run = _
        rw [World.follows?_run_bind_of hnow, hnext]
        exact (World.follows?_run_bind_of hpause).trans hrest
      · change a.failingCalls - 1 ≤ retries
        omega
      · change retries < a.failingCalls - 1
        omega

variable {program : Job → Steward Outcome} {settings : IssuanceSettings} {s : RunState}
variable {E : RunState → World → IssuanceError → Prop} {retries : Nat}

/-- The first call of a run. -/
theorem call_ensureAccount {P : RunState → World → Unit → Prop} (h : Site locks a d w)
    (hb : settings.retry.budget = none)
    (hok : ∀ a' w', Site locks a' d w' → a.Alike a' → a'.orders = a.orders →
      a'.failingCalls = 0 → a.failingCalls ≤ retries → P s w' ())
    (herror : ∀ a' w', Site locks a' d w' → a'.orders = a.orders → retries < a.failingCalls →
      E s w' (.transient "ensure_account" "injected service unavailable")) :
    Driving.Comes program E P s w (Driving.call settings retries .ensureAccount) := by
  obtain ⟨reply, a', w', hfollows, hsite, hensures⟩ :=
    h.ensures settings.callTimeout w.clock retries (b := .start settings.retry) hb
  have hnow : w.follows? (liftM (perform .now) : Watched Duration).run = some (some w.clock, w) :=
    World.follows?_run_lift (World.follows?_perform _)
  have hcalled : w.follows? (callAuthority settings retries .ensureAccount).run =
      some (some reply, w') := by
    rw [callAuthority, retry, World.follows?_run_bind_of hnow]
    exact hfollows
  refine .call hcalled (fun v hv => ?_) (fun e he => ?_)
  · have hle : a.failingCalls ≤ retries := by
      refine Nat.not_lt.mp fun hlt => ?_
      rw [hensures.tooMany hlt] at hv
      cases hv
    exact hok a' w' hsite hensures.toAlike hensures.orders (hensures.enough hle).2 hle
  · have hlt : retries < a.failingCalls := by
      refine Nat.not_le.mp fun hle => ?_
      rw [(hensures.enough hle).1] at he
      cases he
    obtain rfl := Except.error.inj (he.symm.trans (hensures.tooMany hlt))
    exact herror a' w' hsite hensures.orders hlt

end Site

end CertSteward
