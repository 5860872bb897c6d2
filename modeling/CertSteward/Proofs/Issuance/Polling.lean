import CertSteward.Config.Validation
import CertSteward.Proofs.Backoff.Delays
import CertSteward.Proofs.Issuance.Requests
import CertSteward.Proofs.Run.Attempts
import CertSteward.Proofs.Run.Rehearsal
import Mathlib.Logic.Function.Iterate

/-!
# Polling ends

A run polls the authority twice: until all authorizations are valid, and until the certificate is
there. Between two polls it sleeps, for at least a second or until its time is up, and once its time
is up it polls no more. So whatever the authority answers, and however long that takes, there are no
more polls than seconds and one.

## Main definitions

* `BackoffPolicy.NeverFalls` — policies whose delays do not get shorter
* `Driving.Polled` — what becomes of a loop along the paths of its polls
* `Driving.PollsUpTo` — loops that end after so many polls with so many attempts each

## Main results

* `Backoff.IsSlow.next` — a delay is a second long or lasts until the time is up
* `Driving.exists_polled` — a loop polls once more than it has seconds
* `Driving.polling_ends` — both loops of a run end under every valid configuration
-/

namespace CertSteward

open Steward

/-! ### Delays -/

/-- A policy whose delays do not get shorter while they grow, but for the largest one. -/
def BackoffPolicy.NeverFalls (p : BackoffPolicy) : Prop :=
  ∀ n, min (p.grow^[n] p.initial) p.largest ≤ p.grow (p.grow^[n] p.initial)

/-- It is enough to look at all delays there are. -/
theorem BackoffPolicy.neverFalls_of_mem {p : BackoffPolicy} {delays : List Duration}
    (hinitial : p.initial ∈ delays)
    (hgrow : ∀ d ∈ delays, p.grow d ∈ delays ∧ min d p.largest ≤ p.grow d) : p.NeverFalls := by
  have hmem (n : Nat) : p.grow^[n] p.initial ∈ delays := by
    induction n with
    | zero => exact hinitial
    | succ n ih => exact Function.iterate_succ_apply' p.grow n _ ▸ (hgrow _ ih).1
  exact fun n => (hgrow _ (hmem n)).2

/-- A policy for so many seconds with delays of a second or more. -/
structure BackoffPolicy.IsSlow (p : BackoffPolicy) (seconds : Nat) : Prop where
  initial : Duration.second ≤ p.initial
  largest : Duration.second ≤ p.largest
  budget : p.budget = some (.ofSeconds seconds)
  neverFalls : p.NeverFalls

/-- Delays under way that are a second long or more. -/
structure Backoff.IsSlow (p : BackoffPolicy) (b : Backoff) : Prop where
  policy : b.policy = p
  current : ∃ n, b.current = p.grow^[n] p.initial
  second_le : Duration.second ≤ b.current

section

variable {p : BackoffPolicy} {seconds : Nat} {b b' : Backoff} {elapsed delay : Duration}

theorem BackoffPolicy.IsSlow.start (h : p.IsSlow seconds) : (Backoff.start p).IsSlow p :=
  ⟨rfl, ⟨0, rfl⟩, h.initial⟩

/-- A delay is a second long or lasts until the time is up, and is followed by such delays. There is
none once the time is up. -/
theorem Backoff.IsSlow.next (hp : p.IsSlow seconds) (hb : b.IsSlow p)
    (h : b.next? elapsed = some (delay, b')) :
    elapsed < .ofSeconds seconds ∧ min Duration.second (.ofSeconds seconds - elapsed) ≤ delay ∧
      b'.IsSlow p := by
  obtain ⟨n, hn⟩ := hb.current
  have hbudget : b.policy.budget = some (.ofSeconds seconds) := by rw [hb.policy, hp.budget]
  have hsecond : Duration.second ≤ min b.current p.largest :=
    Nat.le_min.mpr ⟨hb.second_le, hp.largest⟩
  obtain ⟨rfl, hlasts, rfl⟩ := stepWith_eq_some h
  refine ⟨hlasts _ hbudget, ?_, hb.policy, ⟨n + 1, ?_⟩, ?_⟩
  · rw [delay_of_budget hbudget, hb.policy]
    exact Nat.le_min.mpr ⟨Nat.le_trans (Nat.min_le_left _ _) hsecond, Nat.min_le_right _ _⟩
  · simp only [hb.policy, hn, Function.iterate_succ_apply']
  · simp only [hb.policy]
    exact Nat.le_trans hsecond (hn ▸ hp.neverFalls n)

end

/-! ### Weights of programs that may fail -/

namespace Driving

variable {w : Act → Nat} {m n : Nat} {α β : Type}

/-- Every path of a program that may fail has at most the weight `n`. -/
def AtMost (w : Act → Nat) (n : Nat) (m : Driving α) : Prop :=
  ∀ t, Steward.AtMost w n (m.run.run t)

theorem atMost_pure (a : α) : AtMost w n (pure a : Driving α) := fun _ => Steward.atMost_pure _

theorem atMost_throw (e : IssuanceError) : AtMost w n (throw e : Driving α) :=
  fun _ => Steward.atMost_pure _

theorem atMost_challenges (f : ChallengeSet → ChallengeSet) : AtMost w n (challenges f) :=
  fun _ => Steward.atMost_pure _

theorem AtMost.mono {p : Driving α} (h : AtMost w m p) (hmn : m ≤ n) : AtMost w n p :=
  fun t => (h t).mono hmn

theorem AtMost.bind {p : Driving α} {f : α → Driving β} (hp : AtMost w m p)
    (hf : ∀ a, AtMost w n (f a)) : AtMost w (m + n) (p >>= f) := by
  intro t
  refine (hp t).bind ?_
  rintro ⟨a | a, t⟩
  · exact Steward.atMost_pure _
  · exact hf a t

theorem atMost_lift {p : Steward α} (hp : Steward.AtMost w n p) :
    AtMost w n (liftM p : Driving α) := by
  intro t
  exact (hp.bind (n := 0) fun _ => Steward.atMost_pure _).bind (n := 0)
    fun _ => Steward.atMost_pure _

theorem atMost_orCancelled {p : Watched α} (hp : Steward.AtMost w n p.run) :
    AtMost w n (orCancelled p) := by
  refine (atMost_lift hp).bind (n := 0) fun x => ?_
  cases x with
  | none => exact atMost_throw _
  | some a => exact atMost_pure a

/-- The weight of a call that is made again `retries` times, each time after a look at the clock and
a sleep: it begins with a look at the clock, and every answer takes its time. -/
def callWeight (w : Act → Nat) (sleep retries : Nat) (r : AuthorityRequest) : Nat :=
  w .now + ((w (.authority r) + sleep) * (retries + 1) + (w .now + sleep) * retries)

variable {settings : IssuanceSettings} {order : OrderHandle} {sleep : Nat}

theorem atMost_pause_of (hsleep : ∀ time, w (.wait (.sleep time)) = sleep) (time : Duration) :
    Steward.AtMost w sleep (pause time).run :=
  (atMost_pause time).mono (Nat.le_of_eq (hsleep time))

theorem atMost_call (hsleep : ∀ time, w (.wait (.sleep time)) = sleep) (retries : Nat)
    (r : AuthorityRequest) : AtMost w (callWeight w sleep retries r) (call settings retries r) := by
  have honce : Steward.AtMost w (w (.authority r) + sleep)
      (callOnce settings.callTimeout r).run := by
    refine (atMost_run_perform _).run_bind fun ⟨reply, time⟩ => ?_
    change Steward.AtMost w sleep (if _ then _ else _ : Watched _).run
    have hpause (time : Duration) (reply : r.Reply) :
        Steward.AtMost w (sleep + 0) (pause time >>= fun _ => pure reply : Watched _).run :=
      (atMost_pause_of hsleep time).run_bind fun _ => atMost_run_pure _
    split
    · exact hpause time reply
    · exact hpause _ _
  refine (atMost_orCancelled ((atMost_run_perform .now).run_bind fun start =>
    honce.retryFrom (fun time => Nat.le_of_eq (by rw [hsleep])) start retries _)).bind (n := 0)
    fun x => ?_
  cases x with
  | ok v => exact atMost_pure v
  | error e => exact atMost_throw e

theorem atMost_pauseOrTimeOut (hsleep : ∀ time, w (.wait (.sleep time)) = sleep)
    (operation : String) (start : Duration) (b : Backoff) :
    AtMost w (w .now + sleep) (pauseOrTimeOut operation start b) := by
  refine (atMost_lift (atMost_perform .now)).bind fun now => ?_
  dsimp only
  cases b.next? (now - start) with
  | none => exact atMost_throw _
  | some next =>
    exact (atMost_orCancelled (atMost_pause_of hsleep next.1)).bind (n := 0)
      fun _ => atMost_pure _

theorem atMost_pollAuthorizations (hsleep : ∀ time, w (.wait (.sleep time)) = sleep)
    (start : Duration) (b : Backoff) :
    AtMost w (callWeight w sleep settings.callRetries (.authorizations order) + (w .now + sleep))
      (pollAuthorizations settings order start b) := by
  refine (atMost_call hsleep _ _).bind fun authorizations => ?_
  rw [← Nat.zero_add (w .now + sleep)]
  refine (atMost_challenges _).bind fun _ => ?_
  cases authorizations.find? fun a => a.status.isFailed with
  | some a => exact atMost_throw _
  | none =>
    change AtMost w _ (if _ then _ else _)
    split
    · exact atMost_pure _
    · exact (atMost_pauseOrTimeOut hsleep _ start b).bind (n := 0) fun _ => atMost_pure _

theorem atMost_pollCertificate (hsleep : ∀ time, w (.wait (.sleep time)) = sleep)
    (start : Duration) (b : Backoff) :
    AtMost w (callWeight w sleep settings.callRetries (.orderState order) +
        (callWeight w sleep settings.callRetries (.certificate order) + (w .now + sleep)))
      (pollCertificate settings order start b) := by
  refine (atMost_call hsleep _ _).bind fun state => ?_
  have hpause : AtMost w (w .now + sleep)
      (do return .inl (← pauseOrTimeOut "order finalization" start b) :
        Driving (Backoff ⊕ String)) :=
    (atMost_pauseOrTimeOut hsleep _ start b).bind (n := 0) fun _ => atMost_pure _
  by_cases hinvalid : state.status = .invalid
  · exact (if_pos hinvalid).symm ▸ atMost_throw _
  rw [if_neg hinvalid]
  by_cases hvalid : state.status = .valid
  · rw [if_pos hvalid]
    refine (atMost_call hsleep _ _).bind fun pem => ?_
    cases pem with
    | some pem => exact atMost_pure _
    | none => exact hpause
  · rw [if_neg hvalid]
    exact hpause.mono (Nat.le_add_left _ _)

/-! ### Rounds -/

/-- `Polled poll b bo t polls c result`: a loop that begins with the delays `bo` makes these polls one
after the other, each along its path. It is under way in the last one if there is no result yet;
else the last one failed or found what it looked for. All others only handed on their delays. -/
inductive Polled (poll : Backoff → Driving (Backoff ⊕ α)) : Bool → Backoff → RunState →
    List (List Happening) → Bool → Option (Except IssuanceError α × RunState) → Prop
  | underWay {b c bo t path a next} (goes : Goes b ((poll bo).run.run t) path c (.ask a next)) :
      Polled poll b bo t [path] c none
  | failed {b c bo t t' path e} (ends : Ends b ((poll bo).run.run t) path c (.error e, t')) :
      Polled poll b bo t [path] c (some (.error e, t'))
  | found {b c bo t t' path a} (ends : Ends b ((poll bo).run.run t) path c (.ok (.inr a), t')) :
      Polled poll b bo t [path] c (some (.ok a, t'))
  | again {b d c bo bo' t t' path polls result}
      (ends : Ends b ((poll bo).run.run t) path d (.ok (.inl bo'), t'))
      (rest : Polled poll d bo' t' polls c result) : Polled poll b bo t (path :: polls) c result

/-- Every poll goes along a path of its program. -/
theorem Polled.goes {poll : Backoff → Driving (Backoff ⊕ α)} {b c : Bool} {bo : Backoff}
    {t : RunState} {polls : List (List Happening)}
    {result : Option (Except IssuanceError α × RunState)} (h : Polled poll b bo t polls c result) :
    ∀ path ∈ polls, ∃ b bo t c q, Goes b ((poll bo).run.run t) path c q := by
  induction h with
  | underWay hgoes => exact List.forall_mem_singleton.mpr ⟨_, _, _, _, _, hgoes⟩
  | failed hends | found hends => exact List.forall_mem_singleton.mpr ⟨_, _, _, _, _, hends⟩
  | again hends _ ih => exact List.forall_mem_cons.mpr ⟨⟨_, _, _, _, _, hends⟩, ih⟩

/-- Whether a poll that goes on to the next one ends with a look at the clock and the next delay. -/
def Pauses (poll : Backoff → Driving (Backoff ⊕ α)) (start : Duration) : Prop :=
  ∀ {b bo t path c bo' t'}, Ends b ((poll bo).run.run t) path c (.ok (.inl bo'), t') →
    ∃ before now delay, path = before ++ [⟨.now, now⟩, ⟨.wait (.sleep delay), some ()⟩] ∧
      bo.next? (now - start) = some (delay, bo')

section Pauses

variable {settings : IssuanceSettings} {order : OrderHandle} {operation : String} {b c : Bool}
  {bo bo' : Backoff} {t t' : RunState} {path : List Happening} {start : Duration}

theorem ends_lift {p : Steward α} {x : Except IssuanceError α}
    (h : Ends b ((liftM p : Driving α).run.run t) path c (x, t')) :
    ∃ a, Ends b p path c a ∧ x = .ok a := by
  change Ends b ((p >>= fun a => .done (a, t)) >>= fun x => .done (Except.ok x.1, x.2)) path c _
    at h
  rw [bind_assoc] at h
  obtain ⟨first, second, d, a, rfl, hp, hdone⟩ := Steward.ends_bind_iff.mp h
  obtain ⟨rfl, rfl, heq⟩ := ends_done_iff.mp hdone
  cases heq
  exact ⟨a, (List.append_nil first).symm ▸ hp, rfl⟩

theorem ends_orCancelled {p : Watched α} {a : α}
    (h : Ends b ((orCancelled p).run.run t) path c (.ok a, t')) : Ends b p.run path c (some a) := by
  obtain ⟨e, he, -⟩ | ⟨first, second, d, o, t₁, rfl, hp, hrest⟩ := ends_bind h
  · cases he
  · obtain ⟨_, hp', heq⟩ := ends_lift hp
    cases heq
    cases o with
    | none =>
      obtain ⟨-, -, heq⟩ := ends_done_iff.mp hrest
      cases heq
    | some a' =>
      obtain ⟨rfl, rfl, heq⟩ := ends_done_iff.mp hrest
      cases heq
      exact (List.append_nil first).symm ▸ hp'

theorem ends_pauseOrTimeOut
    (h : Ends b ((pauseOrTimeOut operation start bo).run.run t) path c (.ok bo', t')) :
    ∃ now delay, path = [⟨.now, now⟩, ⟨.wait (.sleep delay), some ()⟩] ∧
      bo.next? (now - start) = some (delay, bo') := by
  obtain ⟨e, he, -⟩ | ⟨first, second, d, now, t₁, rfl, hnow, hrest⟩ := ends_bind h
  · cases he
  obtain ⟨_, hnow, heq⟩ := ends_lift hnow
  cases heq
  obtain ⟨rfl, -, -⟩ := ends_perform_iff.mp hnow
  dsimp only at hrest
  cases hnext : bo.next? (now - start) with
  | none =>
    rw [hnext] at hrest
    obtain ⟨-, -, heq⟩ := ends_done_iff.mp hrest
    cases heq
  | some next =>
    rw [hnext] at hrest
    obtain ⟨e, he, -⟩ | ⟨first, second, d, u, t₁, rfl, hsleep, hdone⟩ := ends_bind hrest
    · cases he
    obtain ⟨rfl, -, -⟩ := ends_perform_iff.mp (ends_orCancelled hsleep)
    obtain ⟨rfl, -, heq⟩ := ends_done_iff.mp hdone
    cases heq
    exact ⟨now, next.1, rfl, hnext⟩

/-- A poll that ends with a pause pauses. -/
theorem Pauses.of_ends {before : List Happening}
    (h : Ends b ((do return .inl (← pauseOrTimeOut operation start bo) :
      Driving (Backoff ⊕ α)).run.run t) path c (.ok (.inl bo'), t')) :
    ∃ before' now delay,
      before ++ path = before' ++ [⟨.now, now⟩, ⟨.wait (.sleep delay), some ()⟩] ∧
        bo.next? (now - start) = some (delay, bo') := by
  obtain ⟨e, he, -⟩ | ⟨first, second, d, bo'', t₁, rfl, hpause, hdone⟩ := ends_bind h
  · cases he
  obtain ⟨rfl, -, heq⟩ := ends_done_iff.mp hdone
  cases heq
  obtain ⟨now, delay, rfl, hnext⟩ := ends_pauseOrTimeOut hpause
  exact ⟨before, now, delay, by simp, hnext⟩

theorem pauses_pollAuthorizations : Pauses (pollAuthorizations settings order start) start := by
  intro b bo t path c bo' t' h
  obtain ⟨e, he, -⟩ | ⟨first, second, d, authorizations, t₁, rfl, -, h⟩ := ends_bind h
  · cases he
  obtain ⟨e, he, -⟩ | ⟨_, second, d', _, t₂, rfl, hnote, h⟩ := ends_bind h
  · cases he
  obtain ⟨rfl, rfl, heq⟩ := ends_done_iff.mp hnote
  rw [List.nil_append]
  cases hfailed : authorizations.find? fun a => a.status.isFailed with
  | some a =>
    rw [hfailed] at h
    obtain ⟨-, -, heq⟩ := ends_done_iff.mp h
    cases heq
  | none =>
    rw [hfailed] at h
    dsimp only at h
    split at h
    · obtain ⟨-, -, heq⟩ := ends_done_iff.mp h
      cases heq
    · exact Pauses.of_ends h

theorem pauses_pollCertificate : Pauses (pollCertificate settings order start) start := by
  intro b bo t path c bo' t' h
  obtain ⟨e, he, -⟩ | ⟨first, second, d, state, t₁, rfl, -, h⟩ := ends_bind h
  · cases he
  by_cases hinvalid : state.status = .invalid
  · rw [if_pos hinvalid] at h
    obtain ⟨-, -, heq⟩ := ends_done_iff.mp h
    cases heq
  rw [if_neg hinvalid] at h
  by_cases hvalid : state.status = .valid
  · rw [if_pos hvalid] at h
    obtain ⟨e, he, -⟩ | ⟨first', second, d', pem, t₂, rfl, -, h⟩ := ends_bind h
    · cases he
    rw [← List.append_assoc]
    cases pem with
    | some pem =>
      obtain ⟨-, -, heq⟩ := ends_done_iff.mp h
      cases heq
    | none => exact Pauses.of_ends h
  · rw [if_neg hvalid] at h
    exact Pauses.of_ends h

end Pauses

/-- A loop is in its first poll or ended with it, or the first poll only handed on its delays. -/
theorem goes_loop {poll : Backoff → Driving (Backoff ⊕ α)} {exhausted : Driving α} {rounds : Nat}
    {b c : Bool} {bo : Backoff} {t : RunState} {path : List Happening}
    {q : Steward (Except IssuanceError α × RunState)}
    (h : Goes b ((Program.loop poll exhausted (rounds + 1) bo).run.run t) path c q) :
    (∃ result, Polled poll b bo t [path] c result ∧ ∀ x, q = .done x ↔ result = some x) ∨
      ∃ first second d bo' t', path = first ++ second ∧
        Ends b ((poll bo).run.run t) first d (.ok (.inl bo'), t') ∧
        Goes d ((Program.loop poll exhausted rounds bo').run.run t') second c q := by
  obtain ⟨a, next, hgoes, rfl⟩ | ⟨first, second, d, ⟨x, t'⟩, rfl, hend, hrest⟩ :=
    Steward.goes_bind h
  · exact .inl ⟨none, .underWay hgoes, by simp⟩
  · rcases x with e | bo' | a
    · change Goes d (.done (.error e, t')) second c q at hrest
      cases hrest
      rw [List.append_nil]
      exact .inl ⟨some _, .failed hend, fun x => by rw [Program.done.injEq, Option.some.injEq]⟩
    · exact .inr ⟨first, second, d, bo', t', rfl, hend, hrest⟩
    · change Goes d (.done (.ok a, t')) second c q at hrest
      cases hrest
      rw [List.append_nil]
      exact .inl ⟨some _, .found hend, fun x => by rw [Program.done.injEq, Option.some.injEq]⟩

/-- What is left of the time after a delay of a second or to the end of the time. -/
theorem left_of_delay {start since now delay total left second : Nat} (hstart : start ≤ since)
    (hsince : since ≤ now) (hdelay : min second (total - (now - start)) ≤ delay)
    (hleft : start + total ≤ since + (left + second)) : start + total ≤ now + delay + left := by
  omega

/-- A poll after which the loop goes on leaves a second less. -/
theorem Pauses.latest {poll : Backoff → Driving (Backoff ⊕ α)} {p : BackoffPolicy}
    {start since : Duration} {seconds k : Nat} {b d : Bool} {bo bo' : Backoff} {t t' : RunState}
    {path : List Happening} (hpauses : Pauses poll start) (hp : p.IsSlow seconds)
    (hbo : bo.IsSlow p) (hstart : start ≤ since)
    (hleft : start + .ofSeconds seconds ≤ since + .ofSeconds k) (htimely : Timely since path)
    (h : Ends b ((poll bo).run.run t) path d (.ok (.inl bo'), t')) :
    bo'.IsSlow p ∧ start ≤ Steward.latest since path ∧ ∃ k', k = k' + 1 ∧
      start + .ofSeconds seconds ≤ Steward.latest since path + .ofSeconds k' := by
  obtain ⟨before, now, delay, rfl, hnext⟩ := hpauses h
  obtain ⟨hspent, hdelay, hbo'⟩ := hbo.next hp hnext
  obtain ⟨hbefore, hnow, -⟩ := timely_append.mp htimely
  have hsince : since ≤ now := Nat.le_trans hbefore.le_latest hnow
  have hlatest : Steward.latest since (before ++ [⟨.now, now⟩, ⟨.wait (.sleep delay), some ()⟩]) =
      now + delay := latest_append
  have hstart' : start ≤ now := Nat.le_trans hstart hsince
  rw [hlatest]
  refine ⟨hbo', Nat.le_trans hstart' (Nat.le_add_right now delay), ?_⟩
  cases k with
  | zero =>
    have hover : start + .ofSeconds seconds ≤ now := Nat.le_trans hleft (by
      rw [Duration.ofSeconds, Nat.zero_mul]
      exact hsince)
    exact absurd hspent (Nat.not_lt.mpr (Nat.le_sub_of_add_le' hover))
  | succ k' =>
    rw [show Duration.ofSeconds (k' + 1) = .ofSeconds k' + .second from Nat.succ_mul _ _] at hleft
    exact ⟨k', rfl, left_of_delay hstart hsince hdelay hleft⟩

/-- **A loop polls once more than it has seconds.** With `k` seconds left there are at most `k + 1`
polls, and the loop does not run out of rounds. -/
theorem exists_polled {poll : Backoff → Driving (Backoff ⊕ α)} {exhausted : Driving α}
    {p : BackoffPolicy} {start since : Duration} {seconds k rounds : Nat} {b c : Bool}
    {bo : Backoff} {t : RunState} {path : List Happening}
    {q : Steward (Except IssuanceError α × RunState)} (hp : p.IsSlow seconds)
    (hpauses : Pauses poll start) (hrounds : k < rounds) (hbo : bo.IsSlow p)
    (hstart : start ≤ since) (hleft : start + .ofSeconds seconds ≤ since + .ofSeconds k)
    (htimely : Timely since path)
    (h : Goes b ((Program.loop poll exhausted rounds bo).run.run t) path c q) :
    ∃ polls result, path = polls.flatten ∧ polls.length ≤ k + 1 ∧
      Polled poll b bo t polls c result ∧ ∀ x, q = .done x ↔ result = some x := by
  -- the time that is left gets shorter with every poll but the last
  induction rounds generalizing k b bo t path since with
  | zero => omega
  | succ rounds ih =>
    obtain ⟨result, hpolled, hresult⟩ | ⟨first, second, d, bo', t', rfl, hfirst, hsecond⟩ :=
      goes_loop h
    · exact ⟨[path], result, by simp, by simp, hpolled, hresult⟩
    · obtain ⟨hearly, hlate⟩ := timely_append.mp htimely
      obtain ⟨hbo', hstart', k', rfl, hleft'⟩ :=
        hpauses.latest hp hbo hstart hleft hearly hfirst
      obtain ⟨polls, result, rfl, hlength, hpolled, hresult⟩ :=
        ih (by omega) hbo' hstart' hleft' hlate hsecond
      exact ⟨first :: polls, result, rfl, by simpa using hlength, .again hfirst hpolled, hresult⟩

/-! ### Both loops end -/

/-- Counts the attempts of one request. -/
def attempts (q : AuthorityRequest) : Act → Nat
  | .authority q' => if q' = q then 1 else 0
  | _ => 0

/-- A loop that polls until it ends. Whatever the answers are and however long they take, as long as
the clock does not go back and sleeps take their time, it ends after so many polls. -/
structure PollsUpTo (m : Driving α) (poll : Duration → Backoff → Driving (Backoff ⊕ α))
    (delays : Backoff) (rounds tries : Nat) : Prop where
  /-- The loop can go on in time until it ends. -/
  goesOn : ∀ {b c t since path a next}, Goes b (m.run.run t) path c (.ask a next) →
    Timely since path → ∃ answer, a.CanGet c answer ∧ Timely since (path ++ [⟨a, answer⟩])
  /-- The loop does not go on for ever. -/
  ends : ∃ n, ∀ {b c t since path q}, Goes b (m.run.run t) path c q → Timely since path →
    path.length ≤ n
  /-- Once the loop has looked at the clock it does nothing but so many polls, each with so many
  attempts of any request. -/
  polls : ∀ {b c t since path q}, Goes b (m.run.run t) path c q → Timely since path →
    path = [] ∨ ∃ start polls result, path = ⟨.now, start⟩ :: polls.flatten ∧
      polls.length ≤ rounds ∧ Polled (poll start) b delays t polls c result ∧
      (∀ x, q = .done x ↔ result = some x) ∧
      ∀ path ∈ polls, ∀ r, weight (attempts r) path ≤ tries

theorem length_flatten_le {γ : Type} {lists : List (List γ)} (h : ∀ l ∈ lists, l.length ≤ n) :
    lists.flatten.length ≤ lists.length * n := by
  induction lists with
  | nil => exact Nat.zero_le _
  | cons l lists ih =>
    obtain ⟨hl, hlists⟩ := List.forall_mem_cons.mp h
    rw [List.flatten_cons, List.length_append, List.length_cons, Nat.succ_mul, Nat.add_comm]
    exact Nat.add_le_add (ih hlists) hl

/-- A loop that polls with a policy for so many seconds. -/
theorem pollsUpTo {m : Driving α} {poll : Duration → Backoff → Driving (Backoff ⊕ α)}
    {exhausted : Driving α} {p : BackoffPolicy} {seconds tries length : Nat}
    (hm : m = do Program.loop (poll (← perform .now)) exhausted Program.manyRounds (.start p))
    (hp : p.IsSlow seconds) (hrounds : seconds < Program.manyRounds)
    (hwork : Only Act.IsHeldWork m) (hpauses : ∀ start, Pauses (poll start) start)
    (htries : ∀ start b r, AtMost (attempts r) tries (poll start b))
    (hlength : ∀ start b, AtMost (fun _ => 1) length (poll start b)) :
    m.PollsUpTo poll (.start p) (seconds + 1) tries := by
  have hpolls {b c t since path q} (h : Goes b (m.run.run t) path c q)
      (htimely : Timely since path) : path = [] ∨ ∃ start polls result,
        path = ⟨.now, start⟩ :: polls.flatten ∧ polls.length ≤ seconds + 1 ∧
        Polled (poll start) b (.start p) t polls c result ∧ ∀ x, q = .done x ↔ result = some x := by
    rw [hm] at h
    change Goes b (.ask .now fun start => (Program.loop (poll start) exhausted Program.manyRounds
      (.start p)).run.run t) path c q at h
    cases h with
    | stay => exact .inl rfl
    | @ask _ _ _ _ start rest _ _ h =>
      obtain ⟨polls, result, rfl, hlength, hpolled, hresult⟩ := exists_polled hp (hpauses start)
        hrounds hp.start (Nat.le_refl start) (Nat.le_refl _) htimely.2 h
      exact .inr ⟨start, polls, result, rfl, hlength, hpolled, hresult⟩
  refine ⟨fun {b c t since path a next} h htimely => ?_,
    ⟨1 + (seconds + 1) * length, fun {b c t since path q} h htimely => ?_⟩,
    fun {b c t since path q} h htimely => ?_⟩
  · refine exists_timely ?_ c htimely
    rintro rfl
    exact (hwork t).asks h
  · obtain rfl | ⟨start, polls, result, rfl, hcount, hpolled, -⟩ := hpolls h htimely
    · exact Nat.zero_le _
    · have hflat : polls.flatten.length ≤ polls.length * length := by
        refine length_flatten_le fun path hpath => ?_
        obtain ⟨b, bo, t, c, q, hgoes⟩ := hpolled.goes path hpath
        exact weight_one path ▸ hlength start bo t b path c q hgoes
      rw [List.length_cons, Nat.add_comm]
      exact Nat.add_le_add_left (Nat.le_trans hflat (Nat.mul_le_mul_right length hcount)) 1
  · obtain rfl | ⟨start, polls, result, rfl, hcount, hpolled, hresult⟩ := hpolls h htimely
    · exact .inl rfl
    · refine .inr ⟨start, polls, result, rfl, hcount, hpolled, hresult, fun path hpath r => ?_⟩
      obtain ⟨b, bo, t, c, q, hgoes⟩ := hpolled.goes path hpath
      exact htries start bo r t b path c q hgoes

/-- The weight of the attempts of one call. -/
theorem callWeight_attempts (retries : Nat) (q r : AuthorityRequest) :
    callWeight (attempts q) 0 retries r = if r = q then retries + 1 else 0 := by
  simp only [callWeight, attempts]
  split <;> simp

theorem atMost_attempts_pollAuthorizations (q : AuthorityRequest) (start : Duration)
    (b : Backoff) :
    AtMost (attempts q) (settings.callRetries + 1) (pollAuthorizations settings order start b) := by
  have hsleep (time : Duration) : attempts q (.wait (.sleep time)) = 0 := rfl
  refine (atMost_pollAuthorizations hsleep start b).mono ?_
  have hattempts := callWeight_attempts settings.callRetries q (.authorizations order)
  have hnow : attempts q .now = 0 := rfl
  split at hattempts <;> omega

/-- A poll for the certificate makes two calls, but not of the same request. -/
theorem atMost_attempts_pollCertificate (q : AuthorityRequest) (start : Duration) (b : Backoff) :
    AtMost (attempts q) (settings.callRetries + 1) (pollCertificate settings order start b) := by
  have hsleep (time : Duration) : attempts q (.wait (.sleep time)) = 0 := rfl
  refine (atMost_pollCertificate hsleep start b).mono ?_
  have hstate := callWeight_attempts settings.callRetries q (.orderState order)
  have hcertificate := callWeight_attempts settings.callRetries q (.certificate order)
  have hnow : attempts q .now = 0 := rfl
  by_cases hq : AuthorityRequest.orderState order = q
  · subst hq
    rw [if_pos rfl] at hstate
    rw [if_neg AuthorityRequest.noConfusion] at hcertificate
    omega
  · rw [if_neg hq] at hstate
    split at hcertificate <;> omega

end Driving

/-! ### Every valid configuration -/

theorem Config.inRange_eq_nil {path : String} {value low high : Nat}
    (h : inRange path value low high = []) : low ≤ value ∧ value ≤ high := by
  rw [inRange] at h
  split at h
  · assumption
  · cases h

/-- What a valid configuration says about polling. -/
theorem Config.polling_of_isValid {config : Config} (h : config.isValid) :
    1000 ≤ config.acme.pollInitial ∧ 1000 ≤ config.acme.pollMax ∧
      config.acme.validationTimeout ≤ 3600 ∧ config.acme.finalizeTimeout ≤ 3600 := by
  have hfields : config.fieldViolations = [] := by
    rw [isValid, List.isEmpty_iff, violations] at h
    split at h
    · assumption
    · exact h
  simp only [fieldViolations, List.append_eq_nil_iff] at hfields
  obtain ⟨⟨⟨⟨⟨⟨⟨⟨⟨⟨⟨⟨⟨⟨⟨-, -⟩, -⟩, hvalidation⟩, hinitial⟩, hmax⟩, hfinalize⟩, -⟩, -⟩, -⟩, -⟩,
    -⟩, -⟩, -⟩, -⟩, -⟩ := hfields
  exact ⟨(inRange_eq_nil hinitial).1, (inRange_eq_nil hmax).1, (inRange_eq_nil hvalidation).2,
    (inRange_eq_nil hfinalize).2⟩

theorem Duration.second_le_ofMillis {n : Nat} (h : 1000 ≤ n) : second ≤ ofMillis n :=
  Nat.mul_le_mul_right 1000000 h

namespace Driving

/-- **Polling ends.** Under a valid configuration, if its delays do not get shorter while they grow,
a run that awaits the authorizations polls at most once more than it has seconds for it, and so does
one that awaits the certificate. No poll makes more attempts of a request than one and the retries. -/
theorem polling_ends {config : Config} (hvalid : config.isValid)
    (hvalidation : (IssuanceSettings.ofAcme config.acme).validation.NeverFalls)
    (hfinalize : (IssuanceSettings.ofAcme config.acme).finalize.NeverFalls) (order : OrderHandle) :
    (awaitAuthorizations (.ofAcme config.acme) order).PollsUpTo
      (pollAuthorizations (.ofAcme config.acme) order)
      (.start (IssuanceSettings.ofAcme config.acme).validation)
      (config.acme.validationTimeout + 1) (config.acme.requestRetries + 1) ∧
    (awaitCertificate (.ofAcme config.acme) order).PollsUpTo
      (pollCertificate (.ofAcme config.acme) order)
      (.start (IssuanceSettings.ofAcme config.acme).finalize)
      (config.acme.finalizeTimeout + 1) (config.acme.requestRetries + 1) := by
  obtain ⟨hinitial, hmax, hauthorized, hissued⟩ := Config.polling_of_isValid hvalid
  have hfirst := Duration.second_le_ofMillis hinitial
  have hlargest := Duration.second_le_ofMillis hmax
  have hrounds {seconds : Nat} (h : seconds ≤ 3600) : seconds < Program.manyRounds :=
    Nat.lt_of_le_of_lt h (by decide)
  constructor
  · exact pollsUpTo rfl ⟨hfirst, hlargest, rfl, hvalidation⟩ (hrounds hauthorized)
      (within_awaitAuthorizations (Q := fun _ => True) trivial).only
      (fun _ => pauses_pollAuthorizations)
      (fun start b r => atMost_attempts_pollAuthorizations r start b)
      (fun start b => atMost_pollAuthorizations (fun _ => rfl) start b)
  · exact pollsUpTo rfl ⟨hfirst, hlargest, rfl, hfinalize⟩ (hrounds hissued)
      (within_awaitCertificate (Q := fun _ => True) trivial trivial).only
      (fun _ => pauses_pollCertificate)
      (fun start b r => atMost_attempts_pollCertificate r start b)
      (fun start b => atMost_pollCertificate (fun _ => rfl) start b)

/-- The usual settings, with a second for either wait. -/
def hastyConfig : Config := { acme := { validationTimeout := 1, finalizeTimeout := 1 } }

/-- An order that stays as it is. -/
def pendingOrder : OrderHandle := { id := "order", identifiers := ["example.com"] }

/-- An authority that answers at once but does nothing. The clock is moved by sleeps alone. -/
def idleAnswers : Duration → (a : Act) → Option (a.Answer × Duration)
  | now, .now => some (now, now)
  | now, .authority (.authorizations o) =>
    some ((.ok (o.identifiers.map fun name => ⟨name, .pending, none, none⟩), (0 : Nat)), now)
  | now, .wait (.sleep time) => some (some (), now + time)
  | _, _ => none

/-- Both waits have the same delays. -/
theorem neverFalls_hastyConfig :
    (IssuanceSettings.ofAcme hastyConfig.acme).validation.NeverFalls :=
  have hinitial : Duration.ofMillis 1000 ∈ [1000, 2000, 4000, 8000, 10000].map Duration.ofMillis := by
    decide
  BackoffPolicy.neverFalls_of_mem hinitial (by decide +kernel)

/-- With a second for it a run polls twice, and in vain. -/
theorem polling_ends_hastyConfig :
    hastyConfig.isValid ∧
    (awaitAuthorizations (.ofAcme hastyConfig.acme) pendingOrder).PollsUpTo
      (pollAuthorizations (.ofAcme hastyConfig.acme) pendingOrder)
      (.start (IssuanceSettings.ofAcme hastyConfig.acme).validation) 2 4 ∧
    (awaitCertificate (.ofAcme hastyConfig.acme) pendingOrder).PollsUpTo
      (pollCertificate (.ofAcme hastyConfig.acme) pendingOrder)
      (.start (IssuanceSettings.ofAcme hastyConfig.acme).finalize) 2 4 ∧
    ((rehearse idleAnswers false (0 : Nat)
      ((awaitAuthorizations (.ofAcme hastyConfig.acme) pendingOrder).run.run {})).map fun run =>
        (weight (attempts (.authorizations pendingOrder)) run.1, run.2.2.1)) =
      some (2, .error (.timeout "authorization polling" .second)) :=
  have hvalid : hastyConfig.isValid := by decide
  have hends := polling_ends hvalid neverFalls_hastyConfig neverFalls_hastyConfig pendingOrder
  ⟨hvalid, hends.1, hends.2, rfl⟩

end Driving

end CertSteward
