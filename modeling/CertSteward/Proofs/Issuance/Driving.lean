import CertSteward.Proofs.Issuance.Journal

/-!
# The conduct of a run under way

A run under way may fail at every step, and how far it came is known even then. `Driving.Keeps` says
of such a program that it keeps to a conduct and how it ends; `Driving.Drives` says it for the
protocol of a run, one rule for each way in which the steps of a run are put together.

## Main definitions

* `Driving.Keeps` — conduct of programs that may fail
* `Driving.Drives` — the protocol is kept, with what holds after success and after failure

## Main results

* `Drives.bind`, `Drives.call`, `Drives.loop`, `Drives.forM` — the rules
-/

namespace CertSteward

namespace Driving

/-! ### Conduct of programs that may fail -/

section Keeps

variable {σ α β : Type} (C : Conduct σ)

/-- From a state on a program that may fail keeps to a conduct, and ends as `Q` says. -/
def Keeps (Q : Bool → σ → RunState → Except IssuanceError α → Prop) (b : Bool) (s : σ)
    (t : RunState) (m : Driving α) : Prop :=
  C.Keeps (fun b s x => Q b s x.2 x.1) b s (m.run.run t)

variable {C} {b : Bool} {s : σ} {t : RunState}

theorem keeps_bind {m : Driving α} {f : α → Driving β}
    {Q : Bool → σ → RunState → Except IssuanceError β → Prop} :
    Keeps C Q b s t (m >>= f) ↔ Keeps C (fun b s t x => match x with
      | .ok a => Keeps C Q b s t (f a)
      | .error e => Q b s t (.error e)) b s t m := by
  have h : (m >>= f).run.run t = m.run.run t >>= fun x => match x with
      | (.ok a, t) => (f a).run.run t
      | (.error e, t) => pure (.error e, t) := by
    change (m.run.run t >>= _) = _
    congr 1
    funext ⟨x, t'⟩
    cases x <;> rfl
  rw [Keeps, h, Conduct.keeps_bind]
  constructor <;> refine fun h => h.mono fun b s ⟨x, t'⟩ hx => ?_ <;> cases x <;> exact hx

theorem keeps_lift {p : Steward α} {Q : Bool → σ → RunState → Except IssuanceError α → Prop} :
    Keeps C Q b s t (liftM p) ↔ C.Keeps (fun b s a => Q b s t (.ok a)) b s p := by
  change C.Keeps _ b s ((p >>= fun a => pure (a, t)) >>=
    fun x => pure ((Except.ok x.1 : Except IssuanceError α), x.2)) ↔ _
  rw [Conduct.keeps_bind, Conduct.keeps_bind]
  rfl

theorem keeps_orCancelled {p : Watched α}
    {Q : Bool → σ → RunState → Except IssuanceError α → Prop} :
    Keeps C Q b s t (orCancelled p) ↔
      C.Keeps (fun b s x => Q b s t (x.elim (.error .cancelled) .ok)) b s p.run := by
  unfold orCancelled
  rw [keeps_bind, keeps_lift]
  constructor <;> refine fun h => h.mono fun b s x hx => ?_ <;> cases x <;> exact hx

end Keeps

end Driving

/-! ### Calls -/

/-- A fault of the run itself: not one that says that an event was misplaced, unless the authority
answered with such a fault. -/
def Journal.Explains (j : Journal) (e : IssuanceError) : Prop :=
  ∀ m, e.root = .misplaced m → ∃ e' ∈ j.errors, e'.root = .misplaced m

/-- A journal with that standing, of a run that waits for nothing and is at no slot. -/
structure Journal.At (k : Standing) (j : Journal) : Prop where
  standing : j.standing = k
  awaited : j.awaited = none
  errand : j.errand = .blank

section Calls

variable {limit : Duration} {r : IssuanceRequest} {k : Standing} {q : AuthorityRequest}

/-- A run that is at no slot may rest. -/
theorem mayRest {time : Duration} {b : Bool} :
    k.May r b (.wait (.sleep time)) ∧ Errand.blank.MaySleep :=
  ⟨trivial, trivial⟩

/-- How a call ends that was made with standing `k`: with an interruption, a good answer or an
error. A good answer has been waited for. -/
def CallEnd (k : Standing) (q : AuthorityRequest) (b : Bool) (j : Journal) :
    Option q.Reply → Prop
  | none => b = true ∧ j.At (k.ask q)
  | some (.ok v) => b = true ∧ j.At ((k.ask q).hear q v)
  | some (.error e) => b = true ∧ j.At (k.ask q) ∧ j.Explains e

theorem keeps_callOnce {j : Journal} (hj : j.At k) (hd : k.hasDomain = true) (hq : k.MayAsk q) :
    (protocol limit r).Keeps (CallEnd k q) true j (callOnce limit q).run := by
  obtain ⟨standing, awaited, errors, errand⟩ := j
  obtain ⟨rfl, rfl, rfl⟩ := hj
  unfold callOnce
  refine Conduct.keeps_run_bind.mpr (Conduct.keeps_run_perform.mpr ⟨⟨⟨hd, hq⟩, rfl⟩, ?_⟩)
  rintro ⟨reply, time⟩ -
  have htimeout : ∀ j : Journal, j.At (standing.ask q) →
      (protocol limit r).Keeps (CallEnd standing q) true j
        (do pause limit; return .error (.timeout q.operation limit) : Watched q.Reply).run := by
    rintro ⟨_, _, es, _⟩ ⟨rfl, rfl, rfl⟩
    refine Conduct.keeps_run_bind.mpr (Conduct.keeps_run_await.mpr ⟨mayRest, ?_⟩)
    rintro (_ | _) -
    · exact ⟨rfl, rfl, rfl, rfl⟩
    · exact ⟨rfl, ⟨rfl, rfl, rfl⟩, fun _ h => nomatch h⟩
  change (protocol limit r).Keeps _ true _ (if time ≤ limit
    then (do pause time; return reply)
    else (do pause limit; return .error (.timeout q.operation limit)) : Watched q.Reply).run
  by_cases htime : time ≤ limit
  · rw [if_pos htime]
    cases reply with
    | ok v =>
      have hnote : (protocol limit r).next ⟨standing, none, errors, .blank⟩ (.authority q)
          (.ok v, time) = ⟨standing.ask q, some ⟨q, v⟩, errors, .blank⟩ := by
        simp [protocol, Journal.note, Journal.learn, Errand.next, htime]
      rw [hnote]
      refine Conduct.keeps_run_bind.mpr (Conduct.keeps_run_await.mpr ⟨mayRest, ?_⟩)
      rintro (_ | _) -
      · exact ⟨rfl, rfl, rfl, rfl⟩
      · exact ⟨rfl, rfl, rfl, rfl⟩
    | error e =>
      refine Conduct.keeps_run_bind.mpr (Conduct.keeps_run_await.mpr ⟨mayRest, ?_⟩)
      rintro (_ | _) -
      · exact ⟨rfl, rfl, rfl, rfl⟩
      · exact ⟨rfl, ⟨rfl, rfl, rfl⟩, fun m hm => ⟨e, List.mem_cons_self, hm⟩⟩
  · rw [if_neg htime]
    refine htimeout _ ?_
    cases reply with
    | ok v =>
      have hnone : (if time ≤ limit then some ⟨q, v⟩ else none :
          Option ((q : AuthorityRequest) × q.Value)) = none := if_neg htime
      exact ⟨rfl, hnone, rfl⟩
    | error e => exact ⟨rfl, rfl, rfl⟩

/-- Whether a request to the authority leaves the standing as it is, so that it can be repeated. -/
def AuthorityRequest.IsRepeatable (q : AuthorityRequest) : Prop := ∀ k : Standing, k.ask q = k

theorem keeps_retryFrom (hd : k.hasDomain = true) (hq : k.MayAsk q) (start : Duration)
    (again : IssuanceError → Bool) : ∀ (retries : Nat) (b : Backoff) (j : Journal), j.At k →
      retries = 0 ∨ q.IsRepeatable →
      (protocol limit r).Keeps (CallEnd k q) true j
        (retryFrom again (callOnce limit q) start retries b).run := by
  intro retries
  induction retries with
  | zero => exact fun b j hj _ => keeps_callOnce hj hd hq
  | succ retries ih =>
    intro b j hj hrep
    have hrep : q.IsRepeatable := hrep.resolve_left (Nat.succ_ne_zero retries)
    rw [retryFrom]
    refine Conduct.keeps_run_bind.mpr ((keeps_callOnce hj hd hq).mono ?_)
    rintro b' j' (_ | e | v) hend
    · exact hend
    · obtain ⟨rfl, hj', hexp⟩ := hend
      change (protocol limit r).Keeps _ true j' (if again e then _ else _ : Watched _).run
      split
      · refine Conduct.keeps_run_bind.mpr (Conduct.keeps_run_perform.mpr ⟨⟨trivial, trivial⟩, ?_⟩)
        intro now _
        change (protocol limit r).Keeps _ true j' _
        rw [hrep k] at hj'
        cases b.next? (now - start) with
        | none => exact ⟨rfl, (hrep k).symm ▸ hj', hexp⟩
        | some next =>
          obtain ⟨_, _, es, _⟩ := j'
          obtain ⟨rfl, rfl, rfl⟩ := hj'
          refine Conduct.keeps_run_bind.mpr (Conduct.keeps_run_await.mpr ⟨mayRest, ?_⟩)
          rintro (_ | _) -
          · exact ⟨rfl, (hrep _).symm ▸ rfl, rfl, rfl⟩
          · exact ih _ _ ⟨rfl, rfl, rfl⟩ (.inr hrep)
      · exact ⟨rfl, hj', hexp⟩
    · exact hend

theorem keeps_callAuthority {settings : IssuanceSettings} {retries : Nat} {j : Journal}
    (hj : j.At k) (hd : k.hasDomain = true) (hq : k.MayAsk q)
    (hrep : retries = 0 ∨ q.IsRepeatable) :
    (protocol settings.callTimeout r).Keeps (CallEnd k q) true j
      (callAuthority settings retries q).run := by
  refine Conduct.keeps_run_bind.mpr (Conduct.keeps_run_perform.mpr ⟨⟨trivial, trivial⟩, fun now _ => ?_⟩)
  exact keeps_retryFrom hd hq now _ retries _ j hj hrep

end Calls

/-! ### The protocol of a run under way -/

namespace Driving

variable {α β γ : Type} {settings : IssuanceSettings} {r : IssuanceRequest}
variable {E : Standing → RunState → Prop} {P : Standing → RunState → α → Prop}
variable {k : Standing} {t : RunState}

/-- From a standing and a state on, a program keeps to the protocol of a run. If it succeeds, `P`
holds of its result, and if it fails, `E` holds and the fault is one of the run itself. -/
def Drives (settings : IssuanceSettings) (r : IssuanceRequest) (E : Standing → RunState → Prop)
    (P : Standing → RunState → α → Prop) (k : Standing) (t : RunState) (m : Driving α) : Prop :=
  ∀ j : Journal, j.At k → Keeps (protocol settings.callTimeout r) (fun b j t x =>
    b = true ∧ ∃ k, j.At k ∧ match x with
      | .ok a => P k t a
      | .error e => E k t ∧ j.Explains e) true j t m

theorem Drives.pure {a : α} (h : P k t a) : Drives settings r E P k t (pure a) :=
  fun _ hj => ⟨rfl, k, hj, h⟩

theorem Drives.throw {e : IssuanceError} (h : E k t) (he : ∀ m, e.root ≠ .misplaced m) :
    Drives settings r E P k t (throw e) :=
  fun _ hj => ⟨rfl, k, hj, h, fun m hm => absurd hm (he m)⟩

theorem Drives.bind {m : Driving β} {f : β → Driving α}
    (h : Drives settings r E (fun k t a => Drives settings r E P k t (f a)) k t m) :
    Drives settings r E P k t (m >>= f) := by
  intro j hj
  refine keeps_bind.mpr ((h j hj).mono ?_)
  rintro b j ⟨x, t⟩ ⟨rfl, k, hj, hx⟩
  cases x with
  | ok a => exact hx j hj
  | error e => exact ⟨rfl, k, hj, hx⟩

theorem Drives.mono {P' : Standing → RunState → α → Prop} {m : Driving α}
    (h : Drives settings r E P' k t m) (hP : ∀ k t a, P' k t a → P k t a) :
    Drives settings r E P k t m := by
  intro j hj
  refine (h j hj).mono ?_
  rintro b j ⟨x, t⟩ ⟨rfl, k, hj, hx⟩
  cases x with
  | ok a => exact ⟨rfl, k, hj, hP k t a hx⟩
  | error e => exact ⟨rfl, k, hj, hx⟩

/-- A look at the clock. -/
theorem Drives.now {Q : Standing → RunState → Duration → Prop} (h : ∀ now, Q k t now) :
    Drives settings r E Q k t (liftM (perform .now)) := by
  rintro ⟨_, _, es, _⟩ ⟨rfl, rfl, rfl⟩
  refine keeps_lift.mpr (Conduct.keeps_perform.mpr ⟨⟨trivial, trivial⟩, fun now _ => ?_⟩)
  exact ⟨rfl, _, ⟨rfl, rfl, rfl⟩, h now⟩

theorem Drives.get {Q : Standing → RunState → RunState → Prop} (h : Q k t t) :
    Drives settings r E Q k t get :=
  fun _ hj => ⟨rfl, k, hj, h⟩

theorem Drives.modify {f : RunState → RunState} {Q : Standing → RunState → PUnit → Prop}
    (h : Q k (f t) ()) : Drives settings r E Q k t (modify f) :=
  fun _ hj => ⟨rfl, k, hj, h⟩

/-- An event that belongs to the state. -/
theorem Drives.advance {e : IssuanceEvent} {machine : IssuanceMachine}
    {Q : Standing → RunState → Unit → Prop} (he : t.machine.apply e = .ok machine)
    (h : Q k { t with machine } ()) : Drives settings r E Q k t (advance e) := by
  refine .bind (.get ?_)
  rw [he]
  exact .modify h

theorem Drives.call {retries : Nat} {q : AuthorityRequest} {Q : Standing → RunState → q.Value → Prop}
    (hd : k.hasDomain = true) (hq : k.MayAsk q) (hrep : retries = 0 ∨ q.IsRepeatable)
    (herror : E (k.ask q) t) (hok : ∀ v, Q ((k.ask q).hear q v) t v) :
    Drives settings r E Q k t (call settings retries q) := by
  intro j hj
  refine keeps_bind.mpr (keeps_orCancelled.mpr ((keeps_callAuthority hj hd hq hrep).mono ?_))
  rintro b j (_ | e | v) hend
  · exact ⟨hend.1, _, hend.2, herror, fun _ h => nomatch h⟩
  · exact ⟨hend.1, _, hend.2.1, herror, hend.2.2⟩
  · exact ⟨hend.1, _, hend.2, hok v⟩

/-- A pause, which may be interrupted. -/
theorem Drives.pause {time : Duration} {Q : Standing → RunState → Unit → Prop}
    (herror : E k t) (hok : Q k t ()) : Drives settings r E Q k t (orCancelled (pause time)) := by
  rintro ⟨_, _, es, _⟩ ⟨rfl, rfl, rfl⟩
  refine keeps_orCancelled.mpr (Conduct.keeps_run_await.mpr ⟨mayRest, ?_⟩)
  rintro (_ | _) -
  · exact ⟨rfl, _, ⟨rfl, rfl, rfl⟩, herror, fun _ h => nomatch h⟩
  · exact ⟨rfl, _, ⟨rfl, rfl, rfl⟩, hok⟩

/-- A loop whose rounds keep `I`. -/
theorem Drives.loop {body : β → Driving (β ⊕ α)} {exhausted : Driving α}
    {I : Standing → RunState → Prop}
    (hbody : ∀ k t b, I k t → Drives settings r E
      (fun k t x => x.elim (fun _ => I k t) (P k t)) k t (body b))
    (hexhausted : ∀ k t, I k t → Drives settings r E P k t exhausted) :
    ∀ (rounds : Nat) (k : Standing) (t : RunState) (b : β), I k t →
      Drives settings r E P k t (Program.loop body exhausted rounds b) := by
  intro rounds
  induction rounds with
  | zero => exact fun k t b hI => hexhausted k t hI
  | succ rounds ih =>
    intro k t b hI
    refine .bind ((hbody k t b hI).mono ?_)
    rintro k t (b | a) hx
    · exact ih k t b hx
    · exact .pure hx

/-- A program for each element of a list, where `I` holds of those that are done. -/
theorem Drives.forM {f : β → Driving PUnit} {I : List β → Standing → RunState → Prop} {l : List β}
    (hf : ∀ done a rest k t, l = done ++ a :: rest → I done k t →
      Drives settings r E (fun k t _ => I (done ++ [a]) k t) k t (f a)) (hI : I [] k t) :
    Drives settings r E (fun k t _ => I l k t) k t (l.forM f) := by
  suffices h : ∀ done rest k t, l = done ++ rest → I done k t →
      Drives settings r E (fun k t _ => I l k t) k t (rest.forM f) from h [] l k t rfl hI
  intro done rest
  induction rest generalizing done with
  | nil =>
    intro k t hl hI
    rw [List.append_nil] at hl
    exact .pure (hl ▸ hI)
  | cons a rest ih =>
    intro k t hl hI
    refine .bind ((hf done a rest k t hl hI).mono ?_)
    intro k t _ hI
    exact ih (done ++ [a]) k t (by simpa using hl) hI

/-- A loop over a list whose rounds keep `I` and never end it. -/
theorem Drives.forIn {f : β → PUnit → Driving (ForInStep PUnit)} {I : Standing → RunState → Prop}
    (hf : ∀ a k t, I k t →
      Drives settings r E (fun k t x => x = .yield ⟨⟩ ∧ I k t) k t (f a ⟨⟩)) :
    ∀ (l : List β) (k : Standing) (t : RunState), I k t →
      Drives settings r E (fun k t _ => I k t) k t (forIn l ⟨⟩ f) := by
  intro l
  induction l with
  | nil => exact fun k t hI => .pure hI
  | cons a l ih =>
    intro k t hI
    rw [List.forIn_cons]
    refine .bind ((hf a k t hI).mono ?_)
    rintro k t x ⟨rfl, hI⟩
    exact ih k t hI

/-- A wait for jobs, which may be interrupted. -/
theorem Drives.awaitAll {jobs : List Job} {Q : Standing → RunState → List Outcome → Prop}
    (hd : k.hasDomain = true) (hjobs : ∀ j ∈ jobs, k.MaySend true j)
    (herror : E (k.send jobs) t) (hok : ∀ outcomes, outcomes.length = jobs.length →
      Q ((k.send jobs).gather jobs outcomes) t outcomes) :
    Drives settings r E Q k t (orCancelled (await (.all jobs))) := by
  rintro ⟨_, _, es, _⟩ ⟨rfl, rfl, rfl⟩
  refine keeps_orCancelled.mpr (Conduct.keeps_run_await.mpr ⟨⟨⟨hd, hjobs⟩, rfl, rfl⟩, ?_⟩)
  rintro (_ | outcomes) hlen
  · exact ⟨rfl, _, ⟨rfl, rfl, rfl⟩, herror, fun _ h => nomatch h⟩
  · exact ⟨rfl, _, ⟨rfl, rfl, rfl⟩, hok outcomes hlen⟩

/-- A program that can be interrupted and the rest of the run after it. -/
theorem Drives.orCancelled_bind {p : Watched β} {f : β → Watched α}
    (h : Drives settings r E (fun k t a => Drives settings r E P k t (orCancelled (f a))) k t
      (orCancelled p)) : Drives settings r E P k t (orCancelled (p >>= f)) := by
  intro j hj
  refine keeps_orCancelled.mpr (Conduct.keeps_run_bind.mpr ?_)
  refine (keeps_orCancelled.mp (h j hj)).mono ?_
  rintro b j (_ | a) ⟨rfl, k, hj, hx⟩
  · exact ⟨rfl, k, hj, hx⟩
  · exact keeps_orCancelled.mp (hx j hj)

/-- The DNS service has failed, or there is a result. -/
theorem Drives.ofDns {x : Except DnsError α} (herror : E k t) (hok : ∀ a, x = .ok a → P k t a) :
    Drives settings r E P k t (ofDns x) := by
  cases x with
  | ok a => exact .pure (hok a rfl)
  | error e => exact .throw herror nofun

end Driving

end CertSteward
