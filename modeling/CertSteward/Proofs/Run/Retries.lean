import CertSteward.Proofs.Backoff.Delays
import CertSteward.Proofs.Run.Attempts

/-!
# How calls are made again

A call that fails in a way that may pass is made again after a delay. So every way through a caller
has one shape: calls that failed and were made again, each followed by a look at the clock and a
sleep, and a last call, whose result is the caller's own. There is no further call because the last
one did its work, or failed for good, or was the last one that is allowed, or ended when the time
for delays was up.

## Main definitions

* `FailedTry`, `MadeAgain` — calls that failed and were made again
* `Stops` — why there is no further call
* `Retried` — how many calls there are, and why there are no more

## Main results

* `ends_retryFrom_iff` — the ways through a caller
* `retried_of_ends` — what holds of the calls along a way
* `exists_ends_retry` — there is a way along every sequence of calls
-/

namespace CertSteward

open Steward

section

variable {ε α : Type} {again : ε → Bool} {call : Watched (Except ε α)} {start reading : Duration}
  {retries left : Nat} {b c : Bool} {d d' : Backoff} {path last tail : List Happening}
  {x : Except ε α} {policy : BackoffPolicy}

/-! ### The ways through a caller -/

/-- A wait comes to its end, or is interrupted. -/
theorem Steward.ends_run_await_iff {v : Wait} {result : Option v.Answer} :
    Ends b (await v).run path c result ↔
      path = [⟨.wait v, result⟩] ∧ (Act.wait v).CanGet b result ∧ c = b :=
  ends_perform_iff

/-- A call that failed and was made again: its path and its error, what the clock read after it, and
the delay before the next one. -/
structure FailedTry (ε : Type) where
  path : List Happening
  error : ε
  reading : Duration
  delay : Duration

/-- The path up to the next call. -/
def FailedTry.whole (t : FailedTry ε) : List Happening :=
  t.path ++ [⟨.now, t.reading⟩, ⟨.wait (.sleep t.delay), some ()⟩]

/-- Calls that fail and are made again, after delays that are counted from `start`. -/
inductive MadeAgain (again : ε → Bool) (call : Watched (Except ε α)) (start : Duration) :
    Bool → Backoff → List (FailedTry ε) → Bool → Backoff → Prop
  | nil {b : Bool} {d : Backoff} : MadeAgain again call start b d [] b d
  | cons {b b' c : Bool} {d d' d'' : Backoff} {t : FailedTry ε} {ts : List (FailedTry ε)}
    (ends : Ends b call.run t.path b' (some (.error t.error))) (may : again t.error = true)
    (next : d.next? (t.reading - start) = some (t.delay, d'))
    (rest : MadeAgain again call start b' d' ts c d'') :
    MadeAgain again call start b d (t :: ts) c d''

/-- Why a call with that result is the last one when `left` more are allowed, and what is asked for
after it. -/
inductive Stops (again : ε → Bool) (start : Duration) :
    Nat → Backoff → Except ε α → List Happening → Prop
  | success {left : Nat} {d : Backoff} {a : α} : Stops again start left d (.ok a) []
  /-- The error does not pass. -/
  | lasting {left : Nat} {d : Backoff} {e : ε} (h : again e = false) :
    Stops again start left d (.error e) []
  | limit {d : Backoff} {e : ε} : Stops again start 0 d (.error e) []
  /-- The time for delays is up. -/
  | spent {left : Nat} {d : Backoff} {e : ε} {reading : Duration} (may : again e = true)
    (none : d.next? (reading - start) = none) :
    Stops again start (left + 1) d (.error e) [⟨.now, reading⟩]

/-- A caller that is allowed one more call comes to an end with its first call, or makes it again. -/
theorem ends_retryFrom_succ_iff :
    Ends b (retryFrom again call start (retries + 1) d).run path c (some x) ↔
      (∃ last tail, path = last ++ tail ∧ Ends b call.run last c (some x) ∧
        Stops again start (retries + 1) d x tail) ∨
      ∃ (t : FailedTry ε) (rest : List Happening) (b' : Bool) (d' : Backoff),
        path = t.whole ++ rest ∧
        Ends b call.run t.path b' (some (.error t.error)) ∧ again t.error = true ∧
        d.next? (t.reading - start) = some (t.delay, d') ∧
        Ends b' (retryFrom again call start retries d').run rest c (some x) := by
  rw [retryFrom, ends_run_bind_iff]
  constructor
  · rintro ⟨first, second, b', o, rfl, hfirst, ⟨-, -, -, hnone⟩ | ⟨y, rfl, hrest⟩⟩
    · cases hnone
    cases y with
    | ok a =>
      obtain ⟨rfl, rfl, hx⟩ := ends_run_pure_iff.mp hrest
      cases hx
      exact .inl ⟨first, [], rfl, hfirst, .success⟩
    | error e =>
      dsimp only at hrest
      split at hrest
      · next hagain =>
        obtain ⟨_, _, _, _, rfl, hnow, ⟨-, -, -, hnone⟩ | ⟨reading, rfl, hmore⟩⟩ :=
          ends_run_bind_iff.mp hrest
        · cases hnone
        obtain ⟨_, rfl, -, rfl, hreading⟩ := ends_run_perform_iff.mp hnow
        cases hreading
        cases hnext : d.next? (reading - start) with
        | none =>
          rw [hnext] at hmore
          obtain ⟨rfl, rfl, hx⟩ := ends_run_pure_iff.mp hmore
          cases hx
          exact .inl ⟨first, _, rfl, hfirst, .spent hagain hnext⟩
        | some step =>
          obtain ⟨delay, d'⟩ := step
          rw [hnext] at hmore
          obtain ⟨_, rest, _, _, rfl, hsleep, ⟨-, -, -, hnone⟩ | ⟨_, rfl, hlater⟩⟩ :=
            ends_run_bind_iff.mp hmore
          · cases hnone
          obtain ⟨rfl, -, rfl⟩ := ends_run_await_iff.mp hsleep
          refine .inr ⟨⟨first, e, reading, delay⟩, rest, _, d', ?_, hfirst, hagain, hnext, hlater⟩
          simp [FailedTry.whole]
      · next hagain =>
        obtain ⟨rfl, rfl, hx⟩ := ends_run_pure_iff.mp hrest
        cases hx
        exact .inl ⟨first, [], rfl, hfirst, .lasting (eq_false_of_ne_true hagain)⟩
  · rintro (⟨last, tail, rfl, hlast, hstops⟩ | ⟨t, rest, b', d', rfl, hfirst, hagain, hnext, hrest⟩)
    · refine ⟨last, tail, c, some x, rfl, hlast, .inr ⟨x, rfl, ?_⟩⟩
      cases hstops with
      | success => exact ends_run_pure_iff.mpr ⟨rfl, rfl, rfl⟩
      | lasting h =>
        dsimp only
        rw [if_neg (ne_true_of_eq_false h)]
        exact ends_run_pure_iff.mpr ⟨rfl, rfl, rfl⟩
      | @spent _ _ e reading hagain hnone =>
        dsimp only
        rw [if_pos hagain]
        refine ends_run_bind_iff.mpr ⟨_, [], c, some reading, (List.append_nil _).symm,
          ends_run_perform_iff.mpr ⟨reading, rfl, trivial, rfl, rfl⟩, .inr ⟨reading, rfl, ?_⟩⟩
        rw [hnone]
        exact ends_run_pure_iff.mpr ⟨rfl, rfl, rfl⟩
    · refine ⟨t.path, _, b', _, by rw [FailedTry.whole, List.append_assoc], hfirst,
        .inr ⟨_, rfl, ?_⟩⟩
      dsimp only
      rw [if_pos hagain]
      refine ends_run_bind_iff.mpr ⟨[⟨.now, t.reading⟩], _, b', some t.reading, rfl,
        ends_run_perform_iff.mpr ⟨t.reading, rfl, trivial, rfl, rfl⟩, .inr ⟨t.reading, rfl, ?_⟩⟩
      rw [hnext]
      exact ends_run_bind_iff.mpr ⟨[⟨.wait (.sleep t.delay), some ()⟩], rest, b', some (), rfl,
        ends_run_await_iff.mpr ⟨rfl, trivial, rfl⟩, .inr ⟨(), rfl, hrest⟩⟩

/-- **The ways through a caller.** Calls fail and are made again until one is the last. -/
theorem ends_retryFrom_iff :
    Ends b (retryFrom again call start retries d).run path c (some x) ↔
      ∃ (ts : List (FailedTry ε)) (left : Nat) (b' : Bool) (d' : Backoff)
        (last tail : List Happening),
        path = ts.flatMap FailedTry.whole ++ (last ++ tail) ∧ ts.length + left = retries ∧
        MadeAgain again call start b d ts b' d' ∧ Ends b' call.run last c (some x) ∧
        Stops again start left d' x tail := by
  induction retries generalizing b d path with
  | zero =>
    constructor
    · intro h
      refine ⟨[], 0, b, d, path, [], by simp, rfl, .nil, h, ?_⟩
      cases x with
      | ok a => exact .success
      | error e => exact .limit
    · rintro ⟨ts, left, b', d', last, tail, rfl, hcount, hagain, hlast, hstops⟩
      obtain ⟨hts, rfl⟩ := Nat.add_eq_zero_iff.mp hcount
      obtain rfl := List.length_eq_zero_iff.mp hts
      cases hagain
      cases hstops <;> simpa [retryFrom] using hlast
  | succ retries ih =>
    rw [ends_retryFrom_succ_iff]
    constructor
    · rintro (⟨last, tail, rfl, hlast, hstops⟩ |
        ⟨t, rest, b', d', rfl, hfirst, hagain, hnext, hrest⟩)
      · exact ⟨[], retries + 1, b, d, last, tail, rfl, Nat.zero_add _, .nil, hlast, hstops⟩
      · obtain ⟨ts, left, c', d'', last, tail, rfl, hcount, hmore, hlast, hstops⟩ := ih.mp hrest
        refine ⟨t :: ts, left, c', d'', last, tail, ?_, ?_, .cons hfirst hagain hnext hmore, hlast,
          hstops⟩
        · rw [List.flatMap_cons, List.append_assoc]
        · rw [List.length_cons, ← hcount]
          omega
    · rintro ⟨ts, left, c', d'', last, tail, rfl, hcount, hmore, hlast, hstops⟩
      cases hmore with
      | nil =>
        obtain rfl : left = retries + 1 := by simpa using hcount
        exact .inl ⟨last, tail, rfl, hlast, hstops⟩
      | @cons _ b' _ _ d' _ t ts hfirst hagain hnext hmore =>
        refine .inr ⟨t, _, b', d', ?_, hfirst, hagain, hnext,
          ih.mpr ⟨ts, left, c', d'', last, tail, rfl, ?_, hmore, hlast, hstops⟩⟩
        · rw [List.flatMap_cons, List.append_assoc]
        · rw [List.length_cons] at hcount
          omega

/-! ### Why there are no more calls -/

theorem MadeAgain.policy_eq {ts : List (FailedTry ε)} (h : MadeAgain again call start b d ts c d') :
    d'.policy = d.policy := by
  induction h with
  | nil => rfl
  | cons _ _ hnext _ ih =>
    obtain ⟨-, -, rfl⟩ := Backoff.stepWith_eq_some hnext
    exact ih

theorem MadeAgain.failed {ts : List (FailedTry ε)} (h : MadeAgain again call start b d ts c d') :
    ∀ t ∈ ts, again t.error = true ∧
      ∃ b₁ b₂, Ends b₁ call.run t.path b₂ (some (.error t.error)) := by
  induction h with
  | nil => exact nofun
  | cons hends hmay _ _ ih => exact List.forall_mem_cons.mpr ⟨⟨hmay, _, _, hends⟩, ih⟩

/-- Calls of which all but the last one failed and were made again, at most `retries` times, and
the last one came to `x`: it did its work, or it failed for good, or it was the last one that is
allowed, or the clock says after it that the budget is spent. -/
structure Retried (policy : BackoffPolicy) (again : ε → Bool) (retries : Nat) (start : Duration)
    (ts : List (FailedTry ε)) (x : Except ε α) (tail : List Happening) : Prop where
  bound : ts.length ≤ retries
  earlier : ∀ t ∈ ts, again t.error = true
  stopped : (∃ a, x = .ok a) ∨ ∃ e, x = .error e ∧ (again e = false ∨ ts.length = retries ∨
    ∃ reading, tail = [⟨.now, reading⟩] ∧ ∃ budget ∈ policy.budget, budget ≤ reading - start)

theorem Stops.retried {ts : List (FailedTry ε)}
    (hagain : MadeAgain again call start b (.start policy) ts c d')
    (hcount : ts.length + left = retries) (h : Stops again start left d' x tail) :
    Retried policy again retries start ts x tail where
  bound := hcount ▸ Nat.le_add_right _ _
  earlier t ht := (hagain.failed t ht).1
  stopped := by
    cases h with
    | success => exact .inl ⟨_, rfl⟩
    | lasting hfalse => exact .inr ⟨_, rfl, .inl hfalse⟩
    | limit => exact .inr ⟨_, rfl, .inr (.inl hcount)⟩
    | spent _ hnone =>
      obtain ⟨budget, hbudget, hle⟩ :=
        Backoff.isExhausted_iff.mp (Backoff.stepWith_eq_none_iff.mp hnone)
      rw [hagain.policy_eq] at hbudget
      exact .inr ⟨_, rfl, .inr (.inr ⟨_, rfl, budget, hbudget, hle⟩)⟩

/-- A caller begins with a look at the clock. -/
theorem ends_retry_iff : Ends b (retry policy retries again call).run path c (some x) ↔
    ∃ start rest, path = ⟨.now, start⟩ :: rest ∧
      Ends b (retryFrom again call start retries (.start policy)).run rest c (some x) := by
  rw [retry, ends_run_bind_iff]
  constructor
  · rintro ⟨_, rest, _, _, rfl, hnow, ⟨-, -, -, hnone⟩ | ⟨start, rfl, hrest⟩⟩
    · cases hnone
    obtain ⟨_, rfl, -, rfl, hstart⟩ := ends_run_perform_iff.mp hnow
    cases hstart
    exact ⟨start, rest, rfl, hrest⟩
  · rintro ⟨start, rest, rfl, hrest⟩
    exact ⟨[⟨.now, start⟩], rest, b, some start, rfl,
      ends_run_perform_iff.mpr ⟨start, rfl, trivial, rfl, rfl⟩, .inr ⟨start, rfl, hrest⟩⟩

/-- What holds of the calls along a way through a caller. -/
theorem retried_of_ends (h : Ends b (retry policy retries again call).run path c (some x)) :
    ∃ (start : Duration) (ts : List (FailedTry ε)) (last tail : List Happening),
      path = ⟨.now, start⟩ :: (ts.flatMap FailedTry.whole ++ (last ++ tail)) ∧
      Retried policy again retries start ts x tail ∧
      (∀ t ∈ ts, ∃ b₁ b₂, Ends b₁ call.run t.path b₂ (some (.error t.error))) ∧
      (∃ b₁, Ends b₁ call.run last c (some x)) ∧ ∀ y ∈ tail, y.1 = .now := by
  obtain ⟨start, _, rfl, hrest⟩ := ends_retry_iff.mp h
  obtain ⟨ts, left, b', d', last, tail, rfl, hcount, hagain, hlast, hstops⟩ :=
    ends_retryFrom_iff.mp hrest
  refine ⟨start, ts, last, tail, rfl, hstops.retried hagain hcount,
    fun t ht => (hagain.failed t ht).2, ⟨b', hlast⟩, ?_⟩
  cases hstops with
  | spent => exact List.forall_mem_singleton.mpr rfl
  | _ => exact fun _ h => absurd h List.not_mem_nil

/-! ### Every sequence of calls -/

/-- Calls and readings of the clock, one after the other, as far as they are needed: the calls that
are made again are the first of them, and the next one is the last. -/
theorem exists_madeAgain (again : ε → Bool) (start : Duration) (retries : Nat) (d : Backoff)
    (calls : Nat → List Happening × Except ε α) (readings : Nat → Duration)
    (h : ∀ k, Ends b call.run (calls k).1 b (some (calls k).2)) :
    ∃ (ts : List (FailedTry ε)) (left : Nat) (d' : Backoff) (tail : List Happening),
      ts.length + left = retries ∧ MadeAgain again call start b d ts b d' ∧
      (∀ k t, ts[k]? = some t →
        (calls k).1 = t.path ∧ (calls k).2 = .error t.error ∧ readings k = t.reading) ∧
      Stops again start left d' (calls ts.length).2 tail ∧
      (tail = [] ∨ tail = [⟨.now, readings ts.length⟩]) := by
  induction retries generalizing d calls readings with
  | zero =>
    refine ⟨[], 0, d, [], rfl, .nil, by simp, ?_, .inl rfl⟩
    cases hx : (calls ([] : List (FailedTry ε)).length).2 with
    | ok a => exact .success
    | error e => exact .limit
  | succ retries ih =>
    have hfirst := h 0
    cases hx : (calls 0).2 with
    | ok a =>
      exact ⟨[], retries + 1, d, [], Nat.zero_add _, .nil, by simp, hx ▸ .success, .inl rfl⟩
    | error e =>
      rw [hx] at hfirst
      cases hagain : again e with
      | false =>
        exact ⟨[], retries + 1, d, [], Nat.zero_add _, .nil, by simp, hx ▸ .lasting hagain, .inl rfl⟩
      | true =>
        cases hnext : d.next? (readings 0 - start) with
        | none =>
          exact ⟨[], retries + 1, d, [⟨.now, readings 0⟩], Nat.zero_add _, .nil, by simp,
            hx ▸ .spent hagain hnext, .inr rfl⟩
        | some step =>
          obtain ⟨ts, left, d', tail, hcount, hmore, hcalls, hstops, htail⟩ :=
            ih step.2 (fun k => calls (k + 1)) (fun k => readings (k + 1)) fun k => h (k + 1)
          refine ⟨⟨(calls 0).1, e, readings 0, step.1⟩ :: ts, left, d', tail, ?_,
            .cons hfirst hagain hnext hmore, ?_, hstops, htail⟩
          · rw [List.length_cons, ← hcount, Nat.add_right_comm]
          · rintro (_ | k) t ht
            · cases ht
              exact ⟨rfl, hx, rfl⟩
            · exact hcalls k t ht

/-- **There is a way along every sequence of calls.** Whatever the calls come to one after the other
and whatever the clock reads after them, a caller comes to an end with one of them. -/
theorem exists_ends_retry (policy : BackoffPolicy) (again : ε → Bool) (retries : Nat)
    (start : Duration) (calls : Nat → List Happening × Except ε α) (readings : Nat → Duration)
    (h : ∀ k, Ends b call.run (calls k).1 b (some (calls k).2)) :
    ∃ (ts : List (FailedTry ε)) (tail : List Happening),
      Retried policy again retries start ts (calls ts.length).2 tail ∧
      (∀ k t, ts[k]? = some t →
        (calls k).1 = t.path ∧ (calls k).2 = .error t.error ∧ readings k = t.reading) ∧
      (tail = [] ∨ tail = [⟨.now, readings ts.length⟩]) ∧
      Ends b (retry policy retries again call).run
        (⟨.now, start⟩ :: (ts.flatMap FailedTry.whole ++ ((calls ts.length).1 ++ tail))) b
        (some (calls ts.length).2) := by
  obtain ⟨ts, left, d', tail, hcount, hagain, hcalls, hstops, htail⟩ :=
    exists_madeAgain again start retries (.start policy) calls readings h
  exact ⟨ts, tail, hstops.retried hagain hcount, hcalls, htail,
    ends_retry_iff.mpr ⟨start, _, rfl, ends_retryFrom_iff.mpr
      ⟨ts, left, b, d', _, tail, rfl, hcount, hagain, h ts.length, hstops⟩⟩⟩

/-! ### Requests of calls -/

/-- A caller makes as many requests as its calls do. -/
theorem weight_of_calls {w : Act → Nat} {n : Nat} {ts : List (FailedTry ε)}
    (hnow : w .now = 0) (hsleep : ∀ time, w (.wait (.sleep time)) = 0)
    (hts : ∀ t ∈ ts, weight w t.path = n) (hlast : weight w last = n)
    (htail : ∀ y ∈ tail, y.1 = .now) :
    weight w (⟨.now, start⟩ :: (ts.flatMap FailedTry.whole ++ (last ++ tail))) =
      n * (ts.length + 1) := by
  have hnone : weight w tail = 0 := by
    induction tail with
    | nil => rfl
    | cons y tail ih =>
      obtain ⟨hy, htail⟩ := List.forall_mem_cons.mp htail
      rw [weight_cons, hy, hnow, ih htail]
  have hfailed : weight w (ts.flatMap FailedTry.whole) = n * ts.length := by
    induction ts with
    | nil => rfl
    | cons t ts ih =>
      obtain ⟨ht, hts⟩ := List.forall_mem_cons.mp hts
      rw [List.flatMap_cons, weight_append, ih hts, FailedTry.whole, weight_append, ht]
      simp [hnow, hsleep, Nat.mul_add, Nat.add_comm]
  rw [weight_cons, weight_append, weight_append, hfailed, hlast, hnone, hnow, Nat.mul_add]
  omega

end

end CertSteward
