import CertSteward.Proofs.Issuance.Sequence
import CertSteward.Proofs.Run.Courses
import CertSteward.Proofs.Run.Rehearsal

/-!
# What a failed run is reported with

A run that failed after it called the authority is reported with the normalized primary domain, the
last state that its machine came to, and the fault that ended its way to the certificate. That the
machine really was in that state can be told from outside: each request of the run belongs to a
state that it came to, and each state that opens with a request was come to with that request made.

There are two exceptions. A run that was cancelled is reported as that. And once the certificate
was downloaded, the run is over for its machine; if the certificate cannot be read then, or has
expired, that fault is reported as it is, with neither a domain nor a state.

## Main definitions

* `AsksFor` — the requests to the authority along a path
* `IssuanceState.Makes`, `IssuanceState.opening?` — what is asked in a state, and with what it opens
* `Drove` — a way to the certificate, with its end
* `Route` — a way through a whole run
* `FailsWith` — what a run fails with

## Main results

* `Driving.completes_drive` — the way from the first state to the last
* `ends_issueHeld`, `route_of_ends`, `ends_issueCertificate` — the parts of a run
* `failsWith_of_ends` — a run that called the authority fails as is said
* `Contending.failsWith` — how each of any number of runs at the same time fails
-/

namespace CertSteward

/-- That the authority is asked for something along a path. -/
def AsksFor (path : List Happening) (q : AuthorityRequest) : Prop :=
  ∃ answer, (⟨.authority q, answer⟩ : Happening) ∈ path

section AsksFor

variable {path first second : List Happening} {q : AuthorityRequest}

@[simp] theorem not_asksFor_nil : ¬ AsksFor [] q := fun ⟨_, h⟩ => List.not_mem_nil h

theorem asksFor_append : AsksFor (first ++ second) q ↔ AsksFor first q ∨ AsksFor second q := by
  simp only [AsksFor, List.mem_append, exists_or]

theorem asksFor_cons {h : Happening} :
    AsksFor (h :: path) q ↔ h.1 = .authority q ∨ AsksFor path q := by
  refine (@asksFor_append [h] path q).trans (or_congr_left ?_)
  constructor
  · rintro ⟨answer, hmem⟩
    rw [← List.mem_singleton.mp hmem]
  · obtain ⟨a, answer⟩ := h
    rintro rfl
    exact ⟨answer, List.mem_singleton_self _⟩

/-- Programs ask only for what they may ask for. -/
theorem Steward.Only.of_asksFor {α : Type} {Q : AuthorityRequest → Prop} {p : Steward α}
    (hp : Steward.Only (Act.IsWorkFor Q) p) {b c : Bool} {x : α} (h : Steward.Ends b p path c x)
    (hq : AsksFor path q) : Q q := by
  obtain ⟨answer, hmem⟩ := hq
  exact (hp.goes h _ hmem).2 q rfl

/-- Programs that ask the authority for `q`, however they end. -/
def Steward.Opens {α : Type} (q : AuthorityRequest) (p : Steward α) : Prop :=
  ∀ b path c x, Steward.Ends b p path c x → AsksFor path q

theorem Steward.opens_perform (q : AuthorityRequest) :
    Steward.Opens q (perform (.authority q)) := by
  intro b path c x h
  obtain ⟨rfl, -, -⟩ := Steward.ends_perform_iff.mp h
  exact ⟨x, List.mem_singleton_self _⟩

/-- Who has asked has asked, whatever comes after. -/
theorem Steward.Opens.bind {α β : Type} {p : Steward α} (hp : Steward.Opens q p)
    (f : α → Steward β) : Steward.Opens q (p >>= f) := by
  intro b path c x h
  obtain ⟨first, second, d, a, rfl, hfirst, -⟩ := Steward.ends_bind_iff.mp h
  exact asksFor_append.mpr (.inl (hp _ _ _ _ hfirst))

theorem Steward.opens_of_perform {α : Type} {a : Act} {f : a.Answer → Steward α}
    (hf : ∀ answer, Steward.Opens q (f answer)) : Steward.Opens q (perform a >>= f) := by
  intro b path c x h
  obtain ⟨first, second, d, answer, rfl, -, hsecond⟩ := Steward.ends_bind_iff.mp h
  exact asksFor_append.mpr (.inr (hf answer _ _ _ _ hsecond))

/-- A call is made at least once. -/
theorem opens_callAuthority (settings : IssuanceSettings) (retries : Nat) (q : AuthorityRequest) :
    Steward.Opens q (callAuthority settings retries q).run := by
  have honce : Steward.Opens q (callOnce settings.callTimeout q).run :=
    ((Steward.opens_perform q).bind _).bind _
  have hretry : ∀ start retries b, Steward.Opens q (retryFrom IssuanceError.isRetryable
      (callOnce settings.callTimeout q) start retries b).run := by
    intro start retries
    cases retries with
    | zero => exact fun _ => honce
    | succ retries => exact fun _ => honce.bind _
  exact Steward.opens_of_perform fun now => hretry now _ _

end AsksFor

/-! ### States and their requests -/

namespace IssuanceState

/-- What a run asks for in a state. -/
def Makes : IssuanceState → AuthorityRequest → Prop
  | start, .ensureAccount => True
  | accountReady, .newOrder _ => True
  | orderCreated, .authorizations _ => True
  | challengesProvisioned, .challengeReady .. => True
  | challengesValidating, .authorizations _ => True
  | finalizing, .finalize .. | finalizing, .orderState _ | finalizing, .certificate _ => True
  | _, _ => False

/-- The request that a run makes in a state whatever comes next, if there is one. -/
def opening? : IssuanceState → Option String
  | start => some "ensure_account"
  | accountReady => some "new_order"
  | orderCreated => some "authorizations"
  | finalizing => some "finalize"
  | _ => none

/-- The states of a run that succeeds, by their number. -/
def stage (n : Nat) : IssuanceState := wholeCourse.getD n failed

end IssuanceState

/-- The machine of a run that has come to a stage. -/
def IssuanceMachine.after (n : Nat) : IssuanceMachine where
  state := .stage n
  earlier := IssuanceState.wholeCourse.take n

namespace Driving

open IssuanceState

variable {α : Type} {n m k : Nat} {path : List Happening} {x : Except IssuanceError String}
variable {s : RunState}

/-- How a run ends that came from stage `n` to stage `k`, where the requests that open a stage were
made from stage `m` on. -/
structure Reaches (n m k : Nat) (path : List Happening) (x : Except IssuanceError String)
    (s : RunState) : Prop where
  le : n ≤ k
  machine : s.machine = .after k
  complete : match x with
    | .ok _ => k = 7
    | .error _ => k < 7
  within : ∀ q, AsksFor path q → ∃ i, n ≤ i ∧ i ≤ k ∧ (stage i).Makes q
  opened : ∀ i, m ≤ i → i ≤ k → ∀ o ∈ (stage i).opening?, ∃ q, AsksFor path q ∧ q.operation = o

/-- From stage `n` a program carries a run on to the last stage, or fails at one before it. Stage
`n` itself is opened by it if `m` is `n`. -/
def Completes (n m : Nat) (p : Driving String) : Prop :=
  ∀ b t path c x t', t.machine = .after n → Steward.Ends b (p.run.run t) path c (x, t') →
    ∃ k, Reaches n m k path x t'

/-- A step within a stage that is open. -/
theorem Completes.within {p : Driving α} {f : α → Driving String} (hn : n < 7)
    (hp : Within (stage n).Makes p) (hf : ∀ a, Completes n (n + 1) (f a)) :
    Completes n (n + 1) (p >>= f) := by
  intro b t path c x t' ht h
  obtain ⟨e, rfl, hend⟩ | ⟨first, second, d, a, t₁, rfl, hfirst, hsecond⟩ := ends_bind h
  · refine ⟨n, Nat.le_refl n, (hp.2 t _ _ _ _ hend).trans ht, hn, fun q hq => ?_,
      fun i hi hin => ?_⟩
    · exact ⟨n, Nat.le_refl n, Nat.le_refl n, (hp.1 t).of_asksFor hend hq⟩
    · exact absurd hin (Nat.not_le.mpr hi)
  · have hmachine : t₁.machine = .after n := (hp.2 t _ _ _ _ hfirst).trans ht
    obtain ⟨k, hk⟩ := hf a d t₁ _ _ _ _ hmachine hsecond
    refine ⟨k, hk.le, hk.machine, hk.complete, fun q hq => ?_, fun i hi hik o ho => ?_⟩
    · obtain hq | hq := asksFor_append.mp hq
      · exact ⟨n, Nat.le_refl n, hk.le, (hp.1 t).of_asksFor hfirst hq⟩
      · exact hk.within q hq
    · obtain ⟨q, hq, hoperation⟩ := hk.opened i hi hik o ho
      exact ⟨q, asksFor_append.mpr (.inr hq), hoperation⟩

theorem opens_call (settings : IssuanceSettings) (retries : Nat) (q : AuthorityRequest)
    (t : RunState) : Steward.Opens q ((call settings retries q).run.run t) :=
  ((((opens_callAuthority settings retries q).bind _).bind _).bind _).bind _

/-- The call with which a stage opens. -/
theorem Completes.call {settings : IssuanceSettings} {retries : Nat} {q : AuthorityRequest}
    {f : q.Value → Driving String} (hn : n < 7) (hq : (stage n).Makes q)
    (hoperation : (stage n).opening? = some q.operation) (hf : ∀ v, Completes n (n + 1) (f v)) :
    Completes n n (call settings retries q >>= f) := by
  intro b t path c x t' ht h
  have hasked : AsksFor path q := (opens_call settings retries q t).bind _ _ _ _ _ h
  obtain ⟨k, hk⟩ := Completes.within hn (within_call retries hq) hf b t path c x t' ht h
  refine ⟨k, hk.le, hk.machine, hk.complete, hk.within, fun i hi hik o ho => ?_⟩
  obtain rfl | hlt := Nat.eq_or_lt_of_le hi
  · rw [hoperation] at ho
    exact ⟨q, hasked, Option.some_inj.mp ho⟩
  · exact hk.opened i hlt hik o ho

/-- A stage that opens with no request. -/
theorem Completes.unopened {p : Driving String} (hnone : (stage n).opening? = none)
    (hp : Completes n (n + 1) p) : Completes n n p := by
  intro b t path c x t' ht h
  obtain ⟨k, hk⟩ := hp b t path c x t' ht h
  refine ⟨k, hk.le, hk.machine, hk.complete, hk.within, fun i hi hik o ho => ?_⟩
  obtain rfl | hlt := Nat.eq_or_lt_of_le hi
  · rw [hnone] at ho
    cases ho
  · exact hk.opened i hlt hik o ho

theorem run_advance (e : IssuanceEvent) (t : RunState) :
    (advance e).run.run t = (match t.machine.apply e with
      | .ok machine => modify fun s => { s with machine }
      | .error m => throw (.misplaced m) : Driving Unit).run.run t := rfl

/-- The event that leads to the next stage. -/
theorem Completes.advance {e : IssuanceEvent} {f : Unit → Driving String}
    (he : (IssuanceMachine.after n).apply e = .ok (.after (n + 1)))
    (hf : Completes (n + 1) (n + 1) (f ())) : Completes n (n + 1) (advance e >>= f) := by
  intro b t path c x t' ht h
  have hrun : (Driving.advance e >>= f).run.run t =
      (f ()).run.run { t with machine := .after (n + 1) } := by
    have hadvance : (Driving.advance e).run.run t =
        pure (.ok (), { t with machine := .after (n + 1) }) := by
      rw [run_advance, ht, he]
      rfl
    change ((Driving.advance e).run.run t >>= _) = _
    rw [hadvance]
    rfl
  rw [hrun] at h
  obtain ⟨k, hk⟩ := hf b _ path c x t' rfl h
  refine ⟨k, Nat.le_of_succ_le hk.le, hk.machine, hk.complete, fun q hq => ?_, hk.opened⟩
  obtain ⟨i, hi, hik, hmakes⟩ := hk.within q hq
  exact ⟨i, Nat.le_of_succ_le hi, hik, hmakes⟩

/-- The last stage. -/
theorem completes_pure (chain : String) : Completes 7 8 (pure chain) := by
  intro b t path c x t' ht h
  obtain ⟨rfl, -, heq⟩ := Steward.ends_done_iff.mp h
  cases heq
  exact ⟨7, Nat.le_refl 7, ht, rfl, fun q hq => absurd hq not_asksFor_nil,
    fun i hi hik => absurd hik (Nat.not_le.mpr hi)⟩

/-- **The way to the certificate** leads from the first stage to the last. -/
theorem completes_drive (p : IssuancePractice) (names : List String) (request : List UInt8) :
    Completes 0 0 (drive p names request) := by
  unfold drive
  refine .call (by decide) trivial rfl fun _ => .advance rfl ?_
  refine .call (by decide) trivial rfl fun order => ?_
  refine .within (by decide) (within_modify fun _ => rfl) fun _ => .advance rfl ?_
  refine .call (by decide) trivial rfl fun authorizations => .advance rfl (.unopened rfl ?_)
  refine .within (by decide) (.forM within_takeChallenge _) fun _ => ?_
  refine .within (by decide) within_makeRecords fun _ => .advance rfl (.unopened rfl ?_)
  refine .within (by decide) within_get fun t => ?_
  refine .within (by decide) (.forM (within_submit fun _ => trivial) _) fun _ =>
    .advance rfl (.unopened rfl ?_)
  refine .within (by decide) (within_awaitAuthorizations trivial) fun _ => .advance rfl ?_
  refine .call (by decide) trivial rfl fun _ => ?_
  refine .within (by decide) (within_awaitCertificate trivial trivial) fun chain => .advance rfl ?_
  exact .unopened rfl (completes_pure chain)

end Driving

/-! ### How a run fails -/

/-- A way to the certificate and its end. It visited the states of the course one by one, all of
them if it got there; each of its requests belongs to a state that it visited, and each state that
opens with a request was visited with that request made. -/
structure Drove (p : IssuancePractice) (names : List String) (request : List UInt8)
    (path : List Happening) (x : Except IssuanceError String) (s : RunState) : Prop where
  ends : ∃ b c, Steward.Ends b ((drive p names request).run.run {}) path c (x, s)
  visited : s.machine.visited <+: IssuanceState.wholeCourse
  complete : x.isOk = true ↔ s.machine.visited = IssuanceState.wholeCourse
  within : ∀ q, AsksFor path q → ∃ stage ∈ s.machine.visited, stage.Makes q
  opened : ∀ stage ∈ s.machine.visited, ∀ o ∈ stage.opening?,
    ∃ q, AsksFor path q ∧ q.operation = o

theorem IssuanceMachine.visited_after : ∀ k < 8, (after k).visited <+: IssuanceState.wholeCourse ∧
    (∀ i < k + 1, .stage i ∈ (after k).visited) ∧
    (∀ stage ∈ (after k).visited, ∃ i < k + 1, stage = .stage i) ∧
    ((after k).visited = IssuanceState.wholeCourse ↔ k = 7) ∧
    (k < 7 → (after k).fail.visited = (after k).visited ++ [.failed]) := by decide

section Whole

variable {p : IssuancePractice} {domain : String} {names : List String} {request : List UInt8}
variable {key : KeyPair} {path : List Happening} {e : IssuanceError} {s : RunState} {b c : Bool}

/-- Every way to the certificate is one of these. A way that ends with a fault stops before the last
state, so that the machine is failed there. -/
theorem drove_of_ends {x : Except IssuanceError String}
    (h : Steward.Ends b ((drive p names request).run.run {}) path c (x, s)) :
    Drove p names request path x s ∧
      (x.isOk = false → s.machine.fail.visited = s.machine.visited ++ [.failed]) := by
  obtain ⟨k, hk⟩ := Driving.completes_drive p names request b {} path c x s rfl h
  have hlt : k < 8 ∧ (x.isOk = true ↔ k = 7) := by
    have hcomplete := hk.complete
    cases x with
    | ok chain =>
      exact ⟨Nat.lt_succ_of_le (Nat.le_of_eq hcomplete), fun _ => hcomplete, fun _ => rfl⟩
    | error e =>
      exact ⟨Nat.lt_succ_of_lt hcomplete, nofun, fun h => absurd h (Nat.ne_of_lt hcomplete)⟩
  obtain ⟨hcourse, hmem, hof, hall, hfail⟩ := IssuanceMachine.visited_after k hlt.1
  rw [← hk.machine] at hcourse hmem hof hall hfail
  refine ⟨⟨⟨b, c, h⟩, hcourse, hlt.2.trans hall.symm, fun q hq => ?_, fun stage hstage o ho => ?_⟩,
    fun hx => hfail ?_⟩
  · obtain ⟨i, -, hik, hmakes⟩ := hk.within q hq
    exact ⟨_, hmem i (Nat.lt_succ_of_le hik), hmakes⟩
  · obtain ⟨i, hik, rfl⟩ := hof stage hstage
    exact hk.opened i (Nat.zero_le i) (Nat.le_of_lt_succ hik) o ho
  · have hne : k ≠ 7 := fun h7 => by
      rw [hlt.2.mpr h7] at hx
      cases hx
    exact Nat.lt_of_le_of_ne (Nat.le_of_lt_succ hlt.1) hne

/-- What a run for a domain fails with that has called the authority along its path. -/
inductive FailsWith (p : IssuancePractice) (domain : String) (names : List String)
    (request : List UInt8) (key : KeyPair) (path : List Happening) : IssuanceError → Prop
  /-- It was cancelled. -/
  | cancelled : FailsWith p domain names request key path .cancelled
  /-- Its way to the certificate ended with a fault, which is reported with the domain and the last
  state before the failure. Nothing was called before, and then only the order was given up. -/
  | failed (before during after : List Happening) {cause : IssuanceError} {s : RunState}
    (parts : path = before ++ during ++ after) (first : ∀ q, ¬ AsksFor before q)
    (drove : Drove p names request during (.error cause) s)
    (last : ∀ q, AsksFor after q → ∃ o, q = .release o) (ne : cause ≠ .cancelled)
    (visited : s.machine.fail.visited = s.machine.visited ++ [.failed]) :
    FailsWith p domain names request key path (.failed domain s.machine.state cause)
  /-- It got the certificate, which cannot be used; that is reported as it is. -/
  | unusable (before during after : List Happening) {chain : String} {now : Instant}
    {e : IssuanceError} {s : RunState} (parts : path = before ++ during ++ after)
    (first : ∀ q, ¬ AsksFor before q) (drove : Drove p names request during (.ok chain) s)
    (last : ∀ q, AsksFor after q → ∃ o, q = .release o)
    (material : materialOf chain key now = .error e) :
    FailsWith p domain names request key path e

/-- What happens around a run changes nothing of it. -/
theorem FailsWith.extend {first last : List Happening}
    (h : FailsWith p domain names request key path e) (hfirst : ∀ q, ¬ AsksFor first q)
    (hlast : ∀ q, ¬ AsksFor last q) :
    FailsWith p domain names request key (first ++ path ++ last) e := by
  have hbefore : ∀ {before : List Happening}, (∀ q, ¬ AsksFor before q) →
      ∀ q, ¬ AsksFor (first ++ before) q := fun hb q hq =>
    (asksFor_append.mp hq).elim (hfirst q) (hb q)
  have hafter : ∀ {after : List Happening}, (∀ q, AsksFor after q → ∃ o, q = .release o) →
      ∀ q, AsksFor (after ++ last) q → ∃ o, q = .release o := fun ha q hq =>
    (asksFor_append.mp hq).elim (ha q) fun hq => absurd hq (hlast q)
  cases h with
  | cancelled => exact .cancelled
  | failed before during after parts first' drove last' ne visited =>
    refine .failed (first ++ before) during (after ++ last) ?_ ?_ drove ?_ ne visited
    · simp only [parts, List.append_assoc]
    · exact hbefore first'
    · exact hafter last'
  | unusable before during after parts first' drove last' material =>
    refine .unusable (first ++ before) during (after ++ last) ?_ ?_ drove ?_ material
    · simp only [parts, List.append_assoc]
    · exact hbefore first'
    · exact hafter last'

/-- One request that is no call. -/
theorem not_asksFor_single {h : Happening} (hne : ∀ q, h.1 ≠ .authority q) (q : AuthorityRequest) :
    ¬ AsksFor [h] q := by
  rw [asksFor_cons]
  exact fun hq => hq.elim (hne q) not_asksFor_nil

/-! ### The parts of a run -/

/-- What comes of a run that holds its domain when its way to the certificate has ended. -/
inductive ComesTo (domain : String) (names : List String) (key : KeyPair) (s : RunState) :
    Except IssuanceError String → List Happening → Issued → Prop
  | ok (chain : String) (wall : Instant) (report : IssuanceReport) :
    ComesTo domain names key s (.ok chain) [⟨.wallClock, wall⟩]
      ((materialOf chain key wall).map fun material => { material, names, report })
  | cancelled : ComesTo domain names key s (.error .cancelled) [] (.error .cancelled)
  | failed {cause : IssuanceError} (ne : cause ≠ .cancelled) :
    ComesTo domain names key s (.error cause) [] (.error (.failed domain s.machine.state cause))

/-- The way of a run that holds its domain to the certificate, unless it was cancelled before. -/
def DroveWatched (p : IssuancePractice) (names : List String) (request : List UInt8)
    (watched : List Happening) (x : Except IssuanceError String) (s : RunState) : Prop :=
  (∃ during b c, watched = ⟨.watch, true⟩ :: during ∧
    Steward.Ends b ((drive p names request).run.run {}) during c (x, s)) ∨
  (watched = [⟨.watch, false⟩] ∧ x = .error .cancelled)

/-- **The parts of a run that holds its domain**: the way to the certificate and the cleaning up,
with looks at the clock before and after them. -/
theorem ends_issueHeld {y : Issued}
    (h : Steward.Ends b (issueHeld p domain names request key) path c y) :
    ∃ started now watched cleaned last x s failures d d',
      path = ⟨.now, started⟩ :: (watched ++ ⟨.unwatch, ()⟩ :: (cleaned ++ ⟨.now, now⟩ :: last)) ∧
      DroveWatched p names request watched x s ∧
      Steward.Ends d (cleanUp p s) cleaned d' failures ∧
      ComesTo domain names key s x last y := by
  obtain ⟨_, rest₁, _, started, rfl, hstarted, h₁⟩ := Steward.ends_bind_iff.mp h
  obtain ⟨rfl, -, -⟩ := Steward.ends_perform_iff.mp hstarted
  obtain ⟨watched, rest₂, _, ⟨x, s⟩, rfl, hwatched, h₂⟩ := Steward.ends_bind_iff.mp h₁
  obtain ⟨_, rest₃, _, _, rfl, hunwatch, h₃⟩ := Steward.ends_bind_iff.mp h₂
  obtain ⟨rfl, -, -⟩ := Steward.ends_perform_iff.mp hunwatch
  obtain ⟨cleaned, rest₄, _, failures, rfl, hcleaned, h₄⟩ := Steward.ends_bind_iff.mp h₃
  obtain ⟨_, last, _, now, rfl, hnow, hlast⟩ := Steward.ends_bind_iff.mp h₄
  obtain ⟨rfl, -, -⟩ := Steward.ends_perform_iff.mp hnow
  refine ⟨started, now, watched, cleaned, last, x, s, failures, _, _, rfl, ?_, hcleaned, ?_⟩
  · obtain ⟨_, during, _, isOn, rfl, hwatch, hdrive⟩ := Steward.ends_bind_iff.mp hwatched
    obtain ⟨rfl, -, -⟩ := Steward.ends_perform_iff.mp hwatch
    cases isOn with
    | true => exact .inl ⟨during, _, _, rfl, hdrive⟩
    | false =>
      obtain ⟨rfl, -, heq⟩ := Steward.ends_done_iff.mp hdrive
      cases heq
      exact .inr ⟨rfl, rfl⟩
  · cases x with
    | ok chain =>
      obtain ⟨_, rest, _, wall, rfl, hwall, hdone⟩ := Steward.ends_bind_iff.mp hlast
      obtain ⟨rfl, -, -⟩ := Steward.ends_perform_iff.mp hwall
      obtain ⟨rfl, -, rfl⟩ := Steward.ends_done_iff.mp hdone
      exact .ok chain wall _
    | error cause =>
      cases cause with
      | cancelled =>
        obtain ⟨rfl, -, rfl⟩ := Steward.ends_done_iff.mp hlast
        exact .cancelled
      | _ =>
        obtain ⟨rfl, -, rfl⟩ := Steward.ends_done_iff.mp hlast
        exact .failed nofun

/-- A run that holds its domain fails as is said. -/
theorem failsWith_of_issueHeld
    (hheld : Steward.Ends b (issueHeld p domain names request key) path c (.error e)) :
    FailsWith p domain names request key path e := by
  obtain ⟨started, now, watched, cleaned, last, x, s, failures, d, d', rfl, hwatched, hcleaned,
    hcomes⟩ := ends_issueHeld hheld
  -- what comes after the way to the certificate
  have hafter : (∀ q, ¬ AsksFor last q) → ∀ q, AsksFor
      (⟨.unwatch, ()⟩ :: (cleaned ++ ⟨.now, now⟩ :: last)) q → ∃ o, q = .release o := by
    intro hlast q hq
    obtain hq | hq := asksFor_cons.mp hq
    · cases hq
    obtain hq | hq := asksFor_append.mp hq
    · exact (only_cleanUp p s).of_asksFor hcleaned hq
    obtain hq | hq := asksFor_cons.mp hq
    · cases hq
    · exact absurd hq (hlast q)
  obtain ⟨during, _, _, rfl, hdrive⟩ | ⟨-, rfl⟩ := hwatched
  · have hbefore : ∀ q, ¬ AsksFor [⟨.now, started⟩, ⟨.watch, true⟩] q := fun q hq => by
      obtain hq | hq := asksFor_cons.mp hq
      · cases hq
      · exact not_asksFor_single (fun _ h => by cases h) q hq
    obtain ⟨hdrove, hfail⟩ := drove_of_ends hdrive
    generalize hy : (Except.error e : Issued) = y at hcomes
    cases hcomes with
    | ok chain wall report =>
      have hmaterial : materialOf chain key wall = .error e := by
        cases hm : materialOf chain key wall with
        | ok material =>
          rw [hm] at hy
          cases hy
        | error e' =>
          rw [hm] at hy
          cases hy
          rfl
      have hwalled : ∀ q, ¬ AsksFor [⟨.wallClock, wall⟩] q :=
        not_asksFor_single fun _ h => by cases h
      exact .unusable [⟨.now, started⟩, ⟨.watch, true⟩] during _ rfl hbefore hdrove
        (hafter hwalled) hmaterial
    | cancelled =>
      cases hy
      exact .cancelled
    | failed ne =>
      cases hy
      exact .failed [⟨.now, started⟩, ⟨.watch, true⟩] during _ rfl hbefore hdrove
        (hafter fun q => not_asksFor_nil) ne (hfail rfl)
  · generalize hy : (Except.error e : Issued) = y at hcomes
    cases hcomes with
    | cancelled =>
      cases hy
      exact .cancelled
    | failed ne => exact absurd rfl ne

/-- The ways through a run: it ends before it has its domain, or it holds it and lets it go. -/
inductive Route (p : IssuancePractice) (r : IssuanceRequest) (mode : LockMode) :
    List Happening → Issued → Prop
  | invalid {e : IssuanceError} (isNormal : r.normal = .error e) : Route p r mode [] (.error e)
  | unsigned {normal : IssuanceRequest} {key : Except MaterialError KeyPair} {e : IssuanceError}
    (isNormal : r.normal = .ok normal) (signed : normal.signed key = .error e) :
    Route p r mode [⟨.freshKey p.settings.key, key⟩] (.error e)
  | refused {normal : IssuanceRequest} {key : Except MaterialError KeyPair}
    {locked : List Happening} {e : IssuanceError} {b c : Bool} (isNormal : r.normal = .ok normal)
    (locks : Steward.Ends b (lockDomain normal.primary mode) locked c (.error e)) :
    Route p r mode (⟨.freshKey p.settings.key, key⟩ :: locked) (.error e)
  | held {normal : IssuanceRequest} {key : Except MaterialError KeyPair} {pair : KeyPair}
    {names : List String} {request : List UInt8} {locked held unlocked : List Happening}
    {lock : Nat} {x : Issued} {b c d d' : Bool} (isNormal : r.normal = .ok normal)
    (signed : normal.signed key = .ok (pair, names, request))
    (locks : Steward.Ends b (lockDomain normal.primary mode) locked c (.ok lock))
    (holds : Steward.Ends c (issueHeld p normal.primary names request pair) held d x)
    (unlocks : Steward.Ends d (unlockDomain normal.primary lock) unlocked d' ()) :
    Route p r mode (⟨.freshKey p.settings.key, key⟩ :: (locked ++ (held ++ unlocked))) x

/-- **The parts of a run.** -/
theorem route_of_ends {r : IssuanceRequest} {mode : LockMode} {x : Issued}
    (h : Steward.Ends b (issueCertificate p r mode) path c x) : Route p r mode path x := by
  unfold issueCertificate at h
  cases hnormal : r.normal with
  | error e =>
    rw [hnormal] at h
    obtain ⟨rfl, -, rfl⟩ := Steward.ends_done_iff.mp h
    exact .invalid hnormal
  | ok normal =>
    rw [hnormal] at h
    obtain ⟨_, rest, _, key, rfl, hkey, h₁⟩ := Steward.ends_bind_iff.mp h
    obtain ⟨rfl, -, -⟩ := Steward.ends_perform_iff.mp hkey
    cases hsigned : normal.signed key with
    | error e =>
      rw [hsigned] at h₁
      obtain ⟨rfl, -, rfl⟩ := Steward.ends_done_iff.mp h₁
      exact .unsigned hnormal hsigned
    | ok signed =>
      obtain ⟨pair, names, request⟩ := signed
      rw [hsigned] at h₁
      obtain ⟨locked, rest, _, lock, rfl, hlock, h₂⟩ := Steward.ends_bind_iff.mp h₁
      cases lock with
      | error e =>
        obtain ⟨rfl, -, rfl⟩ := Steward.ends_done_iff.mp h₂
        rw [List.append_nil, List.singleton_append]
        exact .refused hnormal hlock
      | ok lock =>
        obtain ⟨held, rest, _, y, rfl, hheld, h₃⟩ := Steward.ends_bind_iff.mp h₂
        obtain ⟨unlocked, rest, _, _, rfl, hunlock, h₄⟩ := Steward.ends_bind_iff.mp h₃
        obtain ⟨rfl, -, rfl⟩ := Steward.ends_done_iff.mp h₄
        rw [List.append_nil, List.singleton_append]
        exact .held hnormal hsigned hlock hheld hunlock

/-- **The parts of a run** that called the authority: it made a key and took its domain, held it,
and let it go. -/
theorem ends_issueCertificate {r : IssuanceRequest} {mode : LockMode} {x : Issued}
    (h : Steward.Ends b (issueCertificate p r mode) path c x)
    (hcalled : (∃ q, AsksFor path q) ∨ x.isOk = true) :
    ∃ normal key pair names request before held after d d', r.normal = .ok normal ∧
      normal.signed key = .ok (pair, names, request) ∧
      path = ⟨.freshKey p.settings.key, key⟩ :: before ++ held ++ after ∧
      (∀ q, ¬ AsksFor (⟨.freshKey p.settings.key, key⟩ :: before) q) ∧
      (∀ q, ¬ AsksFor after q) ∧
      Steward.Ends d (issueHeld p normal.primary names request pair) held d' x := by
  -- a run that stops early has neither called nor succeeded
  have hstops : ∀ {path : List Happening} {e : IssuanceError},
      (∀ q, ¬ AsksFor path q) → ¬ ((∃ q, AsksFor path q) ∨ (Except.error e : Issued).isOk = true) :=
    fun hnone h => h.elim (fun ⟨q, hq⟩ => hnone q hq) nofun
  -- whoever tries to hold a domain calls nobody
  have hlocked : ∀ {domain : String} {key : Except MaterialError KeyPair}
      {locked : List Happening} {y : Except IssuanceError Nat} {b c : Bool},
      Steward.Ends b (lockDomain domain mode) locked c y →
      ∀ q, ¬ AsksFor (⟨.freshKey p.settings.key, key⟩ :: locked) q := by
    intro domain key locked y b c hlock q hq
    have honly : Steward.Only (fun a => ∀ q, a ≠ .authority q) (lockDomain domain mode) :=
      only_lockDomain (fun _ => nofun) (fun _ => nofun) nofun nofun _ _
    obtain hq | ⟨answer, hmem⟩ := asksFor_cons.mp hq
    · cases hq
    · exact honly.goes hlock _ hmem q rfl
  cases route_of_ends h with
  | invalid => exact absurd hcalled (hstops fun _ => not_asksFor_nil)
  | unsigned => exact absurd hcalled (hstops (not_asksFor_single fun _ h => by cases h))
  | refused _ hlock => exact absurd hcalled (hstops (hlocked hlock))
  | @held normal key pair names request locked held unlocked lock _ _ _ d d' isNormal signed locks
      holds unlocks =>
    refine ⟨normal, key, pair, names, request, locked, held, unlocked, _, _, isNormal, signed, ?_,
      hlocked locks, fun q hq => ?_, holds⟩
    · simp only [List.cons_append, List.append_assoc]
    · have honly : Steward.Only (fun a => ∀ q, a ≠ .authority q)
          (unlockDomain normal.primary lock) := only_unlockDomain (fun _ => nofun) _ _
      obtain ⟨answer, hmem⟩ := hq
      exact honly.goes unlocks _ hmem q rfl

/-- **A run that called the authority** fails with its cancellation, with the fault that ended its
way to the certificate, wrapped with the normalized primary domain and the last state before the
failure, or because the certificate that it got cannot be used. -/
theorem failsWith_of_ends {r : IssuanceRequest} {mode : LockMode}
    (h : Steward.Ends b (issueCertificate p r mode) path c (.error e))
    (hcalled : ∃ q, AsksFor path q) : ∃ normal key pair names request, r.normal = .ok normal ∧
      normal.signed key = .ok (pair, names, request) ∧
      FailsWith p normal.primary names request pair path e := by
  obtain ⟨normal, key, pair, names, request, before, held, after, d, d', hnormal, hsigned, rfl,
    hbefore, hafter, hheld⟩ := ends_issueCertificate h (.inl hcalled)
  exact ⟨normal, key, pair, names, request, hnormal, hsigned,
    (failsWith_of_issueHeld hheld).extend hbefore hafter⟩

end Whole

namespace Contending

/-- **Each run that called the authority** fails as is said, whatever runs there are at the same
time. -/
theorem failsWith {p : RenewalPractice} {requests : List (IssuanceRequest × LockMode)}
    {w : Weave Issued} {i : Nat} {r : IssuanceRequest} {mode : LockMode} {e : IssuanceError}
    (h : Contending p requests w) (hr : requests[i]? = some (r, mode))
    (hreturned : w.returned i = some (.error e)) (hcalled : ∃ q, AsksFor (w.path i) q) :
    ∃ normal key pair names request, r.normal = .ok normal ∧
      normal.signed key = .ok (pair, names, request) ∧
      FailsWith p.issuance normal.primary names request pair (w.path i) e := by
  obtain ⟨s, here, hmain, -⟩ := h.main_here hr
  obtain ⟨q, b, c, hq, -, hends⟩ := Weave.ends_of_returned h hreturned here
  rw [(h.kinds.main i s here hmain).1, List.getElem?_map, hr] at hq
  cases hq
  exact failsWith_of_ends hends hcalled

/-! ### A certificate that cannot be read -/

/-- An authority that asks for no challenges and hands out an empty file as the certificate. -/
def blankAnswers : (a : Act) → Option a.Answer
  | .now => some (0 : Nat)
  | .wallClock => some { seconds := 10 }
  | .freshKey _ => some (.ok { spec := .ecdsaP256, secret := [] })
  | .authority .ensureAccount => some (.ok (), (0 : Nat))
  | .authority (.newOrder names) => some (.ok { id := "order", identifiers := names }, (0 : Nat))
  | .authority (.authorizations _) => some (.ok [], (0 : Nat))
  | .authority (.finalize ..) => some (.ok (), (0 : Nat))
  | .authority (.orderState _) => some (.ok { status := .valid, error := none }, (0 : Nat))
  | .authority (.certificate _) => some (.ok "", (0 : Nat))
  | .authority (.release _) => some (.ok (), (0 : Nat))
  | .watch => some true
  | .unwatch | .note _ => some ()
  | _ => none

/-- A run at such an authority. -/
def blank : Option (Weave Issued) :=
  (List.replicate 49 0).foldlM (Weave.play ({} : RenewalPractice).program blankAnswers)
    (Weave.start (sampleRequest.map fun (r, mode) => issueCertificate {} r mode))

/-- What such a run is reported with. -/
def blankFault : IssuanceError := .material (.malformedPem "no PEM blocks found")

theorem blank_ends : blank.map (fun w => (w.returned 0, (w.path 0)[6]?)) =
    some (some (.error blankFault), some ⟨.authority .ensureAccount, (.ok (), (0 : Nat))⟩) := by
  rfl

theorem blank_returned : ∃ w, Contending {} sampleRequest w ∧ (∃ q, AsksFor (w.path 0) q) ∧
    w.returned 0 = some (.error blankFault) := by
  obtain ⟨w, hw, hends⟩ := Option.map_eq_some_iff.mp blank_ends
  obtain ⟨hreturned, hasked⟩ := Prod.mk.inj hends
  exact ⟨w, Weave.strides_of_play hw, ⟨_, _, List.mem_of_getElem? hasked⟩, hreturned⟩

/-- The run went all the way, and its certificate is of no use. -/
theorem failsWith_blank : ∃ w, Contending {} sampleRequest w ∧
    w.returned 0 = some (.error blankFault) ∧
    ∃ normal key pair names request,
      IssuanceRequest.normal ⟨"example.com", [], false⟩ = .ok normal ∧
      normal.signed key = .ok (pair, names, request) ∧
      FailsWith {} normal.primary names request pair (w.path 0) blankFault := by
  obtain ⟨w, hw, hcalled, hreturned⟩ := blank_returned
  exact ⟨w, hw, hreturned, failsWith hw (i := 0) rfl hreturned hcalled⟩

/-- The report of a run that called the authority may name neither domain nor state. -/
theorem fails_unplaced : ¬ ∀ p requests w i e, Contending p requests w →
    (∃ q, AsksFor (w.path i) q) → w.returned i = some (.error e) →
    e = .cancelled ∨ ∃ domain state cause, e = .failed domain state cause := by
  intro hplaced
  obtain ⟨w, hw, hcalled, hreturned⟩ := blank_returned
  obtain h | ⟨_, _, _, h⟩ := hplaced _ _ w 0 _ hw hcalled hreturned <;> cases h

end Contending

end CertSteward
