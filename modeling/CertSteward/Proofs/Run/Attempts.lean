import CertSteward.Proofs.Run.Courses
import CertSteward.Run.Retry

/-!
# How often and how long

Every request of a program may be given a weight, and the weight of a path is bounded if the weights
of its parts are: so one counts the requests of one kind, or all of them. And a path takes so much
time at least: the clock never goes back, and a sleep that is not interrupted takes its time. Nothing
is assumed of what else takes time.

## Main definitions

* `Steward.weight`, `Steward.AtMost` — the weight of a path, and programs with a bound for it
* `Steward.latest`, `Steward.Timely` — the least time after a path, and paths on which the clock does
  not go back

## Main results

* `Steward.AtMost.bind`, `AtMost.run_bind` — weights add up
* `Steward.AtMost.retryFrom` — a call is made once more than it is tried again
* `Steward.exists_timely` — whoever has not ended can go on in time
-/

namespace CertSteward

namespace Steward

/-! ### Weights -/

/-- The weight of all requests on a path. -/
def weight (w : Act → Nat) : List Happening → Nat
  | [] => 0
  | e :: path => w e.1 + weight w path

@[simp] theorem weight_nil (w : Act → Nat) : weight w [] = 0 := rfl

@[simp] theorem weight_cons (w : Act → Nat) (e : Happening) (path : List Happening) :
    weight w (e :: path) = w e.1 + weight w path := rfl

@[simp] theorem weight_append (w : Act → Nat) (first second : List Happening) :
    weight w (first ++ second) = weight w first + weight w second := by
  induction first with
  | nil => exact (Nat.zero_add _).symm
  | cons e first ih => rw [List.cons_append, weight_cons, ih, weight_cons, Nat.add_assoc]

theorem weight_one (path : List Happening) : weight (fun _ => 1) path = path.length := by
  induction path with
  | nil => rfl
  | cons e path ih => rw [weight_cons, ih, List.length_cons, Nat.add_comm]

/-- Every path of a program has at most the weight `n`. -/
def AtMost (w : Act → Nat) {α : Type} (n : Nat) (p : Steward α) : Prop :=
  ∀ b path c q, Goes b p path c q → weight w path ≤ n

section

variable {α β : Type} {w : Act → Nat} {m n : Nat}

theorem atMost_pure (a : α) : AtMost w n (pure a : Steward α) := by
  rintro _ _ _ _ ⟨⟩
  exact Nat.zero_le n

theorem AtMost.mono {p : Steward α} (h : AtMost w m p) (hmn : m ≤ n) : AtMost w n p :=
  fun b path c q hgoes => Nat.le_trans (h b path c q hgoes) hmn

theorem AtMost.bind {p : Steward α} {f : α → Steward β} (hp : AtMost w m p)
    (hf : ∀ a, AtMost w n (f a)) : AtMost w (m + n) (p >>= f) := by
  intro b path c q h
  obtain ⟨a, next, hgoes, -⟩ | ⟨first, second, d, a, rfl, hfirst, hsecond⟩ := goes_bind h
  · exact Nat.le_add_right_of_le (hp _ _ _ _ hgoes)
  · rw [weight_append]
    exact Nat.add_le_add (hp _ _ _ _ hfirst) (hf a _ _ _ _ hsecond)

theorem atMost_perform (a : Act) : AtMost w (w a) (perform a) := by
  intro b path c q h
  cases h with
  | stay => exact Nat.zero_le _
  | ask _ rest =>
    cases rest
    exact Nat.le_refl _

theorem atMost_run_pure (a : α) : AtMost w n (pure a : Watched α).run := atMost_pure _

theorem AtMost.run_bind {p : Watched α} {f : α → Watched β} (hp : AtMost w m p.run)
    (hf : ∀ a, AtMost w n (f a).run) : AtMost w (m + n) (p >>= f).run := by
  refine hp.bind fun o => ?_
  cases o with
  | none => exact atMost_pure _
  | some a => exact hf a

theorem atMost_run_perform (a : Act) :
    AtMost w (w a) (liftM (perform a) : Watched a.Answer).run :=
  (atMost_perform a).bind (n := 0) fun _ => atMost_pure _

theorem atMost_pause (time : Duration) : AtMost w (w (.wait (.sleep time))) (pause time).run :=
  atMost_perform _

/-- A call is made once more than it is tried again. Between two calls the clock is read and a sleep
comes. -/
theorem AtMost.retryFrom {ε : Type} {again : ε → Bool} {call : Watched (Except ε α)}
    (hcall : AtMost w m call.run) (hpause : ∀ time, w .now + w (.wait (.sleep time)) ≤ n)
    (start : Duration) (retries : Nat) (b : Backoff) :
    AtMost w (m * (retries + 1) + n * retries)
      (CertSteward.retryFrom again call start retries b).run := by
  induction retries generalizing b with
  | zero => simpa [CertSteward.retryFrom] using hcall
  | succ retries ih =>
    have hsum : m * (retries + 1 + 1) + n * (retries + 1) =
        m + (n + (m * (retries + 1) + n * retries)) := by
      simp only [Nat.mul_add]
      omega
    rw [hsum]
    refine hcall.run_bind fun x => ?_
    cases x with
    | ok a => exact atMost_run_pure _
    | error e =>
      change AtMost w _ (if again e then _ else _ : Watched _).run
      split
      · have hsplit (k : Nat) : n + k = w .now + (n - w .now + k) := by
          have := hpause 0
          omega
        rw [hsplit]
        refine (atMost_run_perform .now).run_bind fun t => ?_
        cases b.next? (t - start) with
        | none => exact atMost_run_pure _
        | some next =>
          have hsleep : w (.wait (.sleep next.1)) ≤ n - w .now := by
            have := hpause next.1
            omega
          exact ((atMost_pause next.1).mono hsleep).run_bind fun _ => ih next.2
      · exact atMost_run_pure _

end

/-! ### Time -/

end Steward

/-- The least time after an answer that was given at `t` or later. -/
def Act.latest (t : Duration) : (a : Act) → a.Answer → Duration
  | .now, reading => reading
  | .wait (.sleep time), some _ => t + time
  | _, _ => t

/-- Whether an answer may be given at `t` or later: the clock does not go back. -/
def Act.OnTime (t : Duration) : (a : Act) → a.Answer → Prop
  | .now, reading => t ≤ reading
  | _, _ => True

theorem Act.le_latest {t : Duration} {a : Act} {answer : a.Answer} (h : a.OnTime t answer) :
    t ≤ a.latest t answer := by
  cases a with
  | now => exact h
  | wait v =>
    cases v with
    | sleep time =>
      cases answer with
      | none => exact Nat.le_refl t
      | some u => exact Nat.le_add_right t time
    | _ => exact Nat.le_refl t
  | _ => exact Nat.le_refl t

namespace Steward

/-- The least time after a path that began at `t` or later. -/
def latest (t : Duration) (path : List Happening) : Duration :=
  path.foldl (fun t e => e.1.latest t e.2) t

/-- A path that began at `t` or later, and along which the clock does not go back. -/
def Timely (t : Duration) : List Happening → Prop
  | [] => True
  | e :: path => e.1.OnTime t e.2 ∧ Timely (e.1.latest t e.2) path

variable {t t' : Duration} {first second path : List Happening}

theorem latest_append : latest t (first ++ second) = latest (latest t first) second :=
  List.foldl_append

theorem timely_append :
    Timely t (first ++ second) ↔ Timely t first ∧ Timely (latest t first) second := by
  induction first generalizing t with
  | nil => exact ⟨fun h => ⟨trivial, h⟩, And.right⟩
  | cons e first ih => exact (and_congr_right' ih).trans and_assoc.symm

theorem Timely.le_latest (h : Timely t path) : t ≤ latest t path := by
  induction path generalizing t with
  | nil => exact Nat.le_refl t
  | cons e path ih => exact Nat.le_trans (Act.le_latest h.1) (ih h.2)

/-- What a program with requests of one kind asks for after some answers. -/
theorem Only.asks {T : Act → Prop} {α : Type} {p : Steward α} {b c : Bool} {a : Act}
    {next : a.Answer → Steward α} (hp : Only T p) (h : Goes b p path c (.ask a next)) : T a := by
  generalize hq : Program.ask a next = q at h
  induction h with
  | stay =>
    subst hq
    exact hp.1
  | ask _ _ ih => exact ih (hp.2 _) hq

/-- Whatever is not to stop for good can be answered in time. -/
theorem exists_timely {a : Act} (h : a ≠ .halt) (b : Bool) (ht : Timely t path) :
    ∃ answer, a.CanGet b answer ∧ Timely t (path ++ [⟨a, answer⟩]) := by
  obtain ⟨answer, hcan⟩ := Act.exists_canGet h b
  cases a with
  | now => exact ⟨latest t path, trivial, timely_append.mpr ⟨ht, Nat.le_refl _, trivial⟩⟩
  | _ => exact ⟨answer, hcan, timely_append.mpr ⟨ht, trivial, trivial⟩⟩

end Steward

end CertSteward
