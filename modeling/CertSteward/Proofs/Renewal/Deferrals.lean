import CertSteward.Proofs.Renewal.Tally
import CertSteward.Proofs.Store.FileTree

/-!
# Renewals that are put off again and again

A renewal that fails for a reason that may pass is put off to the next sweep. How often this has
happened in a row is counted for each record. A sweep looks at the counts before it starts any
renewal, and its renewals set them at their ends, each in between whatever the others do. But each
renewal sets the count of its own record alone, and no record is renewed twice in one sweep. So in
the next sweep every count is what the outcomes so far make of it, and what is in the store under
the name of a record that was put off is what was there before.

Counts are followed along the log of a sweep. A count that only one strand sets can be followed along
the path of that strand instead, of which all ends are known.

## Main definitions

* `Along` — what steps, one for each element of a list, lead to
* `World.Counts` — what an answered request makes of the counts
* `Tallies` — what it makes of one count, on the path of the strand that sets it
* `putOff` — how often a renewal was put off since it last came to a result
* `Weave.outcomesOf` — what came of the renewals of a record
* `InSuccession` — sweeps one after the other

## Main results

* `World.attemptsOf_setAttempts` — counts are independent of each other
* `World.tallied_of_counts` — a count that only one strand sets is as the path of that strand says
* `deferral_of_ends` — what a renewal does to the count of its record, by its outcome
* `Sweeping.attempt_eq`, `Sweeping.attemptsOf_task` — what a sweep reads of a count, and leaves
* `Sweeping.load?_of_deferred` — a renewal that was put off leaves the record as it was
* `InSuccession.attempts_count_deferrals` — all of it, over any number of sweeps
-/

namespace CertSteward

open Steward

/-! ### Steps along a list -/

/-- What steps of one kind, one for each element of a list, lead to. -/
inductive Along {σ ε : Type} (Step : σ → ε → σ → Prop) : σ → List ε → σ → Prop
  | start (s : σ) : Along Step s [] s
  | step {s t u : σ} {e : ε} {l : List ε} (first : Step s e t) (rest : Along Step t l u) :
    Along Step s (e :: l) u

section

variable {σ ε γ : Type} {Step : σ → ε → σ → Prop} {s t u : σ} {e : ε} {l l' : List ε}

@[simp] theorem along_nil_iff : Along Step s [] t ↔ t = s := by
  constructor
  · intro h
    cases h
    rfl
  · rintro rfl
    exact .start _

@[simp] theorem along_cons_iff : Along Step s (e :: l) u ↔ ∃ t, Step s e t ∧ Along Step t l u := by
  constructor
  · intro h
    cases h with
    | step first rest => exact ⟨_, first, rest⟩
  · rintro ⟨t, first, rest⟩
    exact .step first rest

theorem along_append_iff :
    Along Step s (l ++ l') u ↔ ∃ t, Along Step s l t ∧ Along Step t l' u := by
  induction l generalizing s with
  | nil => simp
  | cons e l ih => simp only [List.cons_append, along_cons_iff, ih]; grind

/-- What no step changes is not changed. -/
theorem Along.eq_of_steps (f : σ → γ) (h : Along Step s l t)
    (steps : ∀ e ∈ l, ∀ s t, Step s e t → f t = f s) : f t = f s := by
  induction h with
  | start => rfl
  | step first _ ih =>
    rw [ih fun e he => steps e (List.mem_cons_of_mem _ he)]
    exact steps _ List.mem_cons_self _ _ first

end

/-! ### Counts -/

/-- The record whose count a request is about. -/
def Act.counted? : Act → Option String
  | .attempts id | .setAttempts id _ => some id
  | _ => none

theorem Act.IsIssuing.counted? {a : Act} (h : a.IsIssuing) : a.counted? = none := by
  cases a with
  | attempts | setAttempts => exact h.elim
  | _ => rfl

namespace World

variable {x y : World} {id : String}

theorem attemptsOf_congr (h : x.attempts = y.attempts) (id : String) :
    x.attemptsOf id = y.attemptsOf id := by
  rw [attemptsOf, attemptsOf, h]

/-- A count that is set is what it is set to, and the others stay. -/
theorem attemptsOf_setAttempts (x : World) (id other : String) (n : Nat) :
    (x.setAttempts id n).attemptsOf other = if other = id then n else x.attemptsOf other := by
  let others := x.attempts.filter fun entry => entry.1 ≠ id
  have hrest : others.lookup other = if other = id then none else x.attempts.lookup other := by
    refine (lookup_filter x.attempts fun key => key ≠ id).trans ?_
    by_cases h : other = id <;> simp [h]
  by_cases hn : n = 0
  · have hset : (x.setAttempts id n).attempts = others := if_pos hn
    rw [attemptsOf, hset, hrest]
    split
    · exact hn.symm
    · rfl
  · have hset : (x.setAttempts id n).attempts = (id, n) :: others := if_neg hn
    rw [attemptsOf, hset, List.lookup_cons]
    by_cases h : other = id
    · simp [h]
    · rw [beq_false_of_ne h, hrest, if_neg h, if_neg h, attemptsOf]

/-- What an answered request makes of the counts. Whoever asks for a count is told what it is, and
nothing but a request to set a count changes any; all else in the world may change meanwhile. -/
inductive Counts (x : World) : Event → World → Prop
  | asked {i run : Nat} {id : String} : Counts x ⟨i, run, .attempts id, x.attemptsOf id⟩ x
  | noted {i run : Nat} {id : String} {n : Nat} :
    Counts x ⟨i, run, .setAttempts id n, ()⟩ (x.setAttempts id n)
  | other {e : Event} {y : World} (apart : e.act.counted? = none)
    (same : y.attempts = x.attempts) : Counts x e y

/-- Who asks for a count is told what it is. -/
theorem Counts.answer_eq {i run n : Nat} (h : Counts x ⟨i, run, .attempts id, n⟩ y) :
    n = x.attemptsOf id := by
  cases h with
  | asked => rfl
  | other apart => cases apart

/-- A count that is not set stays. -/
theorem Counts.unset {e : Event} (h : Counts x e y) (unset : ∀ n, e.act ≠ .setAttempts id n) :
    y.attemptsOf id = x.attemptsOf id := by
  cases h with
  | asked => rfl
  | @noted i run other n =>
    have hne : id ≠ other := by
      rintro rfl
      exact unset n rfl
    rw [attemptsOf_setAttempts, if_neg hne]
  | other _ same => exact attemptsOf_congr same id

end World

/-- What an answered request of one strand makes of the count of a record, if nobody else sets it. -/
inductive Tallies (id : String) (n : Nat) : Happening → Nat → Prop
  | asked : Tallies id n ⟨.attempts id, n⟩ n
  | noted {k : Nat} : Tallies id n ⟨.setAttempts id k, ()⟩ k
  | other {e : Happening} (apart : e.1.counted? ≠ some id) : Tallies id n e n

section

variable {id : String} {n m k : Nat} {e : Happening} {path : List Happening}

@[simp] theorem tallies_asked_iff : Tallies id n ⟨.attempts id, k⟩ m ↔ k = n ∧ m = n := by
  constructor
  · intro h
    cases h with
    | asked => exact ⟨rfl, rfl⟩
    | other apart => exact absurd rfl apart
  · rintro ⟨rfl, rfl⟩
    exact .asked

@[simp] theorem tallies_noted_iff : Tallies id n ⟨.setAttempts id k, ()⟩ m ↔ m = k := by
  constructor
  · intro h
    cases h with
    | noted => rfl
    | other apart => exact absurd rfl apart
  · rintro rfl
    exact .noted

theorem tallies_iff_of_apart (apart : e.1.counted? = none) : Tallies id n e m ↔ m = n := by
  constructor
  · intro h
    cases h with
    | asked | noted => cases apart
    | other => rfl
  · rintro rfl
    exact .other (by simp [apart])

/-- Requests about other things leave the count as it is. -/
theorem eq_of_tallied (h : Along (Tallies id) n path m) (apart : ∀ e ∈ path, e.1.counted? = none) :
    m = n :=
  h.eq_of_steps (fun n => n) fun e he _ _ hstep => (tallies_iff_of_apart (apart e he)).mp hstep

end

/-- **A count that only one strand sets** is as the path of that strand says. -/
theorem World.tallied_of_counts {x y : World} {log : List Event} {i : Nat} {id : String}
    (h : Along Counts x log y) (alone : ∀ e ∈ log, ∀ n, e.act = .setAttempts id n → e.strand = i) :
    Along (Tallies id) (x.attemptsOf id)
      ((log.filter (·.strand == i)).map fun e => ⟨e.act, e.answer⟩) (y.attemptsOf id) := by
  induction h with
  | start => exact .start _
  | @step x y z e log first _ ih =>
    have ih := ih fun e he => alone e (List.mem_cons_of_mem _ he)
    by_cases hi : e.strand = i
    · have htally : Tallies id (x.attemptsOf id) ⟨e.act, e.answer⟩ (y.attemptsOf id) := by
        cases first with
        | @asked j run other =>
          by_cases hid : other = id
          · subst hid
            exact .asked
          · exact .other (by simpa [Act.counted?] using hid)
        | @noted j run other n =>
          rw [attemptsOf_setAttempts]
          split
          · rename_i hid
            subst hid
            exact .noted
          · rename_i hid
            exact .other (by simpa [Act.counted?] using Ne.symm hid)
        | other apart same =>
          rw [attemptsOf_congr same]
          exact .other (by simp [apart])
      simpa [hi] using ⟨_, htally, ih⟩
    · have hsame := first.unset fun n hset => hi (alone e List.mem_cons_self n hset)
      simpa [hi, ← hsame] using ih

/-- The world after a log in which nothing but counts matters, if all answers are right. -/
def World.follow (x : World) : List Event → Option World
  | [] => some x
  | ⟨_, _, .attempts id, n⟩ :: log => if x.attemptsOf id = n then x.follow log else none
  | ⟨_, _, .setAttempts id n, _⟩ :: log => (x.setAttempts id n).follow log
  | _ :: log => x.follow log

theorem World.counts_of_follow {x y : World} {log : List Event} (h : x.follow log = some y) :
    Along Counts x log y := by
  induction log generalizing x with
  | nil =>
    cases h
    exact .start _
  | cons e log ih =>
    obtain ⟨i, run, a, answer⟩ := e
    cases a with
    | attempts id =>
      rw [follow] at h
      split at h
      · rename_i hanswer
        subst hanswer
        exact .step .asked (ih h)
      · cases h
    | setAttempts id n => exact .step .noted (ih h)
    | _ => exact .step (.other rfl rfl) (ih h)

/-! ### Outcomes in a row -/

/-- What an outcome makes of a count. -/
def RenewalOutcome.counted (n : Nat) : RenewalOutcome → Nat
  | renewed | failed => 0
  | transient => n + 1
  | skipped | cancelled => n

/-- How often a renewal was put off since it last came to a result, if it came to these outcomes,
the oldest first. -/
def putOff (outcomes : List RenewalOutcome) : Nat :=
  (outcomes.reverse.takeWhile (!·.isKept)).count .transient

theorem putOff_concat (outcomes : List RenewalOutcome) (o : RenewalOutcome) :
    putOff (outcomes ++ [o]) = o.counted (putOff outcomes) := by
  cases o <;> simp [putOff, RenewalOutcome.counted, RenewalOutcome.isKept]

/-- A count that follows the outcomes says how often the renewal was put off. -/
theorem putOff_append (outcomes later : List RenewalOutcome) :
    putOff (outcomes ++ later) = later.foldl RenewalOutcome.counted (putOff outcomes) := by
  induction later generalizing outcomes with
  | nil => simp
  | cons o later ih => rw [List.append_cons, ih, putOff_concat, List.foldl_cons]

/-! ### One renewal -/

section

variable {p : RenewalPractice} {permits : Nat} {task : RenewalTask} {path : List Happening}
variable {b c : Bool} {id : String} {o : RenewalOutcome} {record : Option CertificateRecord}

/-- What is kept of an outcome is counted. The store is asked only if there was a result. -/
theorem counted_of_keepOutcome (h : Ends b (keepOutcome id o record) path c ()) :
    (∀ n m, Along (Tallies id) n path m → m = o.counted n) ∧
      (o.isKept = false → ∀ e ∈ path, ∀ q, e.1 ≠ .records q) := by
  cases o with
  | renewed | failed =>
    refine ⟨fun n m ht => ?_, by simp [RenewalOutcome.isKept]⟩
    obtain ⟨saves, rfl, hsaves, -⟩ := ends_keepOutcome_renewed h
    obtain ⟨k, hset, hrest⟩ := along_cons_iff.mp ht
    obtain rfl := tallies_noted_iff.mp hset
    refine eq_of_tallied hrest fun e he => ?_
    obtain ⟨r, hsave⟩ := hsaves e he
    rw [hsave]
    rfl
  | skipped | cancelled =>
    obtain ⟨rfl, -, -⟩ := ends_done_iff.mp h
    exact ⟨fun n m ht => along_nil_iff.mp ht, by simp⟩
  | transient =>
    obtain ⟨_, _, _, k, rfl, hget, hset⟩ := ends_bind_iff.mp h
    obtain ⟨rfl, -, -⟩ := ends_perform_iff.mp hget
    obtain ⟨rfl, -, -⟩ := ends_perform_iff.mp hset
    refine ⟨fun n m ht => ?_, by simp⟩
    rw [List.singleton_append, along_cons_iff] at ht
    obtain ⟨_, hasked, ht⟩ := ht
    obtain ⟨rfl, rfl⟩ := tallies_asked_iff.mp hasked
    obtain ⟨_, hnoted, hend⟩ := along_cons_iff.mp ht
    obtain rfl := tallies_noted_iff.mp hnoted
    exact along_nil_iff.mp hend

/-- **A renewal counts its outcome**, whatever else it does, and asks the store for nothing if it is
put off. -/
theorem deferral_of_ends (h : Ends false (renewDue p permits task) path c o) :
    (∀ n m, Along (Tallies task.record.id) n path m → m = o.counted n) ∧
      (o.isKept = false → ∀ e ∈ path, ∀ q, e.1 ≠ .records q) := by
  obtain ⟨rfl, rfl⟩ | ⟨renewal, rfl, hrenewal⟩ := ends_renewDue_cases h
  · exact ⟨fun n m ht => eq_of_tallied ht (by simp [Act.counted?]), by simp⟩
  obtain ⟨run, keeping, d, result, rfl, rfl, hrun, hkeep⟩ := ends_renewInSweep hrenewal
  have hissuing := (only_renewRecord _ _ _ _).goes hrun
  obtain ⟨hcounted, hquiet⟩ := counted_of_keepOutcome hkeep
  refine ⟨fun n m ht => ?_, fun hkept e he => ?_⟩
  · obtain ⟨k, hbegin, hend⟩ := along_append_iff.mp ht
    obtain rfl : m = k := eq_of_tallied hend (by simp [Act.counted?])
    obtain ⟨_, hwait, hadmitted⟩ := along_cons_iff.mp hbegin
    obtain rfl := (tallies_iff_of_apart rfl).mp hwait
    obtain ⟨_, hask, hasked⟩ := along_cons_iff.mp hadmitted
    obtain rfl := (tallies_iff_of_apart rfl).mp hask
    obtain ⟨l, hrunning, hkeeping⟩ := along_append_iff.mp hasked
    obtain rfl := eq_of_tallied hrunning fun e he => (hissuing e he).counted?
    exact hcounted _ _ hkeeping
  · simp only [List.mem_append, List.mem_cons, List.not_mem_nil, or_false] at he
    obtain (rfl | rfl | he | he) | rfl := he
    · simp
    · simp
    · intro q hq
      have hrecords := hissuing e he
      rw [hq] at hrecords
      exact hrecords
    · exact hquiet hkept e he
    · simp

end

/-! ### One sweep -/

namespace SweepCourse

variable {p : RenewalPractice} {c : SweepCourse p}

/-- A renewal is the attempt after those that the sweep was told of. -/
theorem asked_mem {x : Task} (hx : x ∈ c.tasks) : ∃ n : Nat,
    ⟨.attempts x.record.id, n⟩ ∈ c.happenings ∧ x.attempt = n + 1 := by
  have hfound : x.toRenewalTask ∈ c.findings.filterMap Finding.task? :=
    c.found ▸ List.mem_map_of_mem hx
  obtain ⟨finding, hfinding, htask⟩ := List.mem_filterMap.mp hfound
  cases finding with
  | lapsed => cases htask
  | due r n =>
    have htask := Option.some.inj htask
    have hasked : (⟨.attempts x.record.id, n⟩ : Happening) ∈ Finding.noting c.now (.due r n) := by
      simp [Finding.noting, ← htask]
    refine ⟨n, ?_, by rw [← htask]⟩
    simp only [happenings, later, List.mem_cons, List.mem_append]
    exact .inr (.inr (.inr (.inl (.inl (.inl (List.mem_flatMap.mpr ⟨_, hfinding, hasked⟩))))))

/-- A sweep asks for all counts before it makes permits. -/
theorem before_asked {before after : List Happening} {id : String} {n : Nat}
    (h : c.happenings = before ++ ⟨.attempts id, n⟩ :: after) :
    ∀ k q, ⟨.newPermits k, q⟩ ∉ before := by
  have hsplit : c.happenings =
      (⟨.now, c.started⟩ :: ⟨.wallClock, c.now⟩ :: ⟨.records .list, .ok c.listed⟩ ::
        c.findings.flatMap (Finding.noting c.now)) ++
      ⟨.newPermits p.workerCount, c.permits⟩ :: (c.tasks.map (Task.spawn c.permits) ++
        c.tasks.flatMap Task.join ++ [⟨.note .sweep, ()⟩, ⟨.now, c.ended⟩]) := by
    simp [happenings, later]
  rw [hsplit] at h
  obtain ⟨between, hbefore, hafter⟩ | ⟨between, hfront, -⟩ := List.append_eq_append_iff.mp h
  · -- no count is asked for after the permits
    cases between with
    | nil => cases hafter
    | cons e between =>
      obtain ⟨-, hafter⟩ := List.cons.inj hafter
      have hmem : (⟨.attempts id, n⟩ : Happening) ∈ c.tasks.map (Task.spawn c.permits) ++
          c.tasks.flatMap Task.join ++ [⟨.note .sweep, ()⟩, ⟨.now, c.ended⟩] := by
        simp [hafter]
      simp [Task.spawn, Task.join] at hmem
  · intro k q hmade
    have hmem := hfront ▸ List.mem_append_left between hmade
    simp at hmem
    obtain ⟨finding, -, hmem⟩ := hmem
    cases finding <;> simp [Finding.noting, Mark.noting] at hmem

/-- Records of one name are due at most once. -/
theorem eq_of_id {x y : Task} (once : (c.listed.map (·.id)).Nodup) (hx : x ∈ c.tasks)
    (hy : y ∈ c.tasks) (hid : x.record.id = y.record.id) : x = y := by
  have hsub : (c.tasks.map (·.record)).Sublist c.listed := by
    rw [eq_filter_of_selectDue? c.due]
    exact List.filter_sublist
  have hnodup := once.sublist (hsub.map (·.id))
  rw [List.map_map] at hnodup
  exact List.inj_on_of_nodup_map hnodup hx hy hid

end SweepCourse

/-- What came of a strand that renews a record of that name in a sweep. -/
def Strand.renewal? {β : Type} (id : String) (s : Strand β) : Option RenewalOutcome :=
  match s.job, s.result? with
  | some (.renewDue _ task), some (.inl o) =>
    if task.record.id = id then some (dueOutcome o) else none
  | _, _ => none

namespace Weave

variable {β : Type} {w : Weave β} {i : Nat} {id : String}

/-- What came of the renewals of the records of that name. -/
def outcomesOf (w : Weave β) (id : String) : List RenewalOutcome :=
  w.strands.filterMap (Strand.renewal? id)

/-- A strand does a renewal of a sweep. -/
def Renews (w : Weave β) (i : Nat) (task : RenewalTask) : Prop :=
  ∃ s q, w.strands[i]? = some s ∧ s.job = some (.renewDue q task)

/-- No answer to the first strand tells of two records of one name. -/
def ReadsOnce (w : Weave β) : Prop := ∀ e ∈ w.path 0, ((e.1.reads e.2).map (·.id)).Nodup

/-- A store that holds one record of each name does not tell of two records of one name. -/
theorem readsOnce_of_after {m m' : MemoryStore} (ids : (m.records.map (·.id)).Nodup)
    (hm : m.After w.log m') : w.ReadsOnce := by
  rintro ⟨a, answer⟩ he
  obtain ⟨run, he⟩ := mem_path.mp he
  obtain ⟨before, after, hlog⟩ := List.append_of_mem he
  rw [hlog] at hm
  obtain ⟨m₁, hbefore, hafter⟩ := MemoryStore.after_append.mp hm
  cases hafter with
  | served serves => exact serves.nodup_reads (hbefore.nodup ids)
  | other differs =>
    cases a with
    | records q => exact absurd rfl (differs q)
    | _ => exact List.nodup_nil

/-- A strand with a result renews a record of that name. -/
theorem renews_of_renewal? {s : Strand β} {o : RenewalOutcome} (here : w.strands[i]? = some s)
    (h : s.renewal? id = some o) : ∃ task, w.Renews i task ∧ task.record.id = id := by
  unfold Strand.renewal? at h
  split at h
  · rename_i q task _ hjob _
    by_cases hid : task.record.id = id
    · exact ⟨task, ⟨s, q, here, hjob⟩, hid⟩
    · rw [if_neg hid] at h
      cases h
  · cases h

theorem renewal?_of_outcome? {s : Strand β} {q : Nat} {task : RenewalTask} {o : Outcome}
    (here : w.strands[i]? = some s) (hjob : s.job = some (.renewDue q task))
    (ho : w.outcome? i = some o) : s.renewal? task.record.id = some (dueOutcome o) := by
  rw [outcome?, here, Option.bind_some] at ho
  obtain ⟨x, hx, ho⟩ := Option.bind_eq_some_iff.mp ho
  cases x with
  | inr => cases ho
  | inl o' =>
    obtain rfl := Option.some.inj ho
    simp [Strand.renewal?, hjob, hx]

/-- Where nobody renews a record of that name, nothing came of it. -/
theorem outcomesOf_eq_nil (h : ∀ i task, w.Renews i task → task.record.id ≠ id) :
    w.outcomesOf id = [] := by
  refine List.filterMap_eq_nil_iff.mpr fun s hs => ?_
  obtain ⟨i, here⟩ := List.getElem?_of_mem hs
  cases hrenewal : s.renewal? id with
  | none => rfl
  | some o =>
    obtain ⟨task, hrenews, hid⟩ := renews_of_renewal? here hrenewal
    exact absurd hid (h i task hrenews)

end Weave

/-- The elements of a list at one place only come to something. -/
theorem filterMap_eq_singleton {α γ : Type} {f : α → Option γ} {l : List α} {i : Nat} {a : α} {x : γ}
    (here : l[i]? = some a) (ha : f a = some x)
    (others : ∀ j a', l[j]? = some a' → j ≠ i → f a' = none) : l.filterMap f = [x] := by
  induction l generalizing i with
  | nil => simp at here
  | cons y l ih =>
    cases i with
    | zero =>
      have hy : y = a := by simpa using here
      have hrest : l.filterMap f = [] := List.filterMap_eq_nil_iff.mpr fun a' ha' => by
        obtain ⟨j, hj⟩ := List.getElem?_of_mem ha'
        exact others (j + 1) a' (by simpa using hj) (by omega)
      rw [hy, List.filterMap_cons_some ha, hrest]
    | succ i =>
      rw [List.filterMap_cons_none (others 0 y rfl (by omega))]
      exact ih (by simpa using here) fun j a' hj hne => others (j + 1) a' (by simpa using hj) (by omega)

namespace Sweeping

variable {p : RenewalPractice} {w : Weave (Except StoreError SweepReport)} {c : SweepCourse p}
variable {x y : World} {t : Task} {id : String}

/-- A sweep that could not read the store renews nothing. -/
theorem not_renews_of_failed (h : Sweeping p w) {started : Duration} {now : Instant} {e : StoreError}
    (hpath : w.path 0 = [⟨.now, started⟩, ⟨.wallClock, now⟩, ⟨.records .list, .error e⟩]) (i : Nat)
    (task : RenewalTask) : ¬ w.Renews i task := by
  rintro ⟨s, q, here, hjob⟩
  have hnew := h.newPermits_of_made? (h.made here hjob).2
  rw [hpath] at hnew
  simp at hnew

/-- Renewals are those of the tasks. -/
theorem task_of_renews (h : Sweeping p w) (hc : w.path 0 = c.happenings) {i : Nat}
    {task : RenewalTask} (hrenews : w.Renews i task) :
    ∃ t ∈ c.tasks, t.strand = i ∧ t.toRenewalTask = task := by
  obtain ⟨s, q, here, hjob⟩ := hrenews
  exact h.task_of_job hc here hjob

/-- Counts are set by the renewals of their records. -/
theorem setter (h : Sweeping p w) {e : Event} (he : e ∈ w.log) {n : Nat}
    (hset : e.act = .setAttempts id n) : ∃ task, w.Renews e.strand task ∧ task.record.id = id := by
  obtain ⟨s, here, hsuits⟩ := h.asked he
  rw [hset] at hsuits
  obtain ⟨q, task, hjob, hid⟩ := hsuits
  exact ⟨task, ⟨s, q, here, hjob⟩, hid⟩

/-- The count of a record that nobody renews stays. -/
theorem attemptsOf_of_not_renews (h : Sweeping p w) (counts : Along World.Counts x w.log y)
    (hno : ∀ i task, w.Renews i task → task.record.id ≠ id) : y.attemptsOf id = x.attemptsOf id := by
  refine counts.eq_of_steps (·.attemptsOf id) fun e he _ _ hstep => hstep.unset fun n hset => ?_
  obtain ⟨task, hrenews, hid⟩ := h.setter he hset
  exact hno _ task hrenews hid

/-- **A renewal is one attempt more than the sweep found counted** before it started any renewal. -/
theorem attempt_eq (h : Sweeping p w) (hc : w.path 0 = c.happenings)
    (counts : Along World.Counts x w.log y) (ht : t ∈ c.tasks) :
    t.attempt = x.attemptsOf t.record.id + 1 := by
  obtain ⟨n, hasked, hattempt⟩ := c.asked_mem ht
  rw [← hc] at hasked
  obtain ⟨u, run, log, path, hu, hlog, hpath⟩ := h.earlier hasked
  have hidle : ∀ i task, ¬ u.Renews i task := by
    rintro i task ⟨s, q, here, hjob⟩
    exact c.before_asked (hc.symm.trans hpath) _ _ (hu.newPermits_of_made? (hu.made here hjob).2)
  rw [hlog] at counts
  obtain ⟨x', hbefore, hafter⟩ := along_append_iff.mp counts
  obtain ⟨x'', hstep, -⟩ := along_cons_iff.mp hafter
  have hstays : x'.attemptsOf t.record.id = x.attemptsOf t.record.id :=
    hu.attemptsOf_of_not_renews hbefore fun i task hrenews => absurd hrenews (hidle i task)
  rw [hattempt, hstep.answer_eq, hstays]

/-- The renewal of a record is the only one that sets its count. -/
theorem attemptsOf_task (h : Sweeping p w) (hc : w.path 0 = c.happenings)
    (once : (c.listed.map (·.id)).Nodup) (counts : Along World.Counts x w.log y) (ht : t ∈ c.tasks) :
    y.attemptsOf t.record.id = t.result.counted (x.attemptsOf t.record.id) := by
  have halone : ∀ e ∈ w.log, ∀ n, e.act = .setAttempts t.record.id n → e.strand = t.strand := by
    intro e he n hset
    obtain ⟨task, hrenews, hid⟩ := h.setter he hset
    obtain ⟨t', ht', hstrand, rfl⟩ := h.task_of_renews hc hrenews
    rw [← hstrand, c.eq_of_id once ht' ht hid]
  obtain ⟨_, _, o, _, _, _, ho, hends⟩ := h.ends_task hc ht
  rw [Task.result, ho]
  exact (deferral_of_ends hends).1 _ _ (World.tallied_of_counts counts halone)

/-- There is one outcome for each record that was renewed. -/
theorem outcomesOf_task (h : Sweeping p w) (hc : w.path 0 = c.happenings)
    (once : (c.listed.map (·.id)).Nodup) (ht : t ∈ c.tasks) :
    w.outcomesOf t.record.id = [t.result] := by
  obtain ⟨s, _, _, here, hjob, houtcome, -, -⟩ := h.ends_task hc ht
  refine filterMap_eq_singleton here (Weave.renewal?_of_outcome? here hjob houtcome) ?_
  intro j s' here' hne
  cases hrenewal : s'.renewal? t.record.id with
  | none => rfl
  | some o =>
    obtain ⟨task, hrenews, hid⟩ := Weave.renews_of_renewal? here' hrenewal
    obtain ⟨t', ht', rfl, rfl⟩ := h.task_of_renews hc hrenews
    exact absurd (congrArg Task.strand (c.eq_of_id once ht' ht hid)) hne

/-- **A renewal that was put off leaves the record as it was.** -/
theorem load?_of_deferred (h : Sweeping p w) (hc : w.path 0 = c.happenings)
    (once : (c.listed.map (·.id)).Nodup) (ht : t ∈ c.tasks) (hkept : t.result.isKept = false)
    {m m' : MemoryStore} (hm : m.After w.log m') : m'.load? t.record.id = m.load? t.record.id := by
  have hdue := c.mem_due.mp (List.mem_map_of_mem ht)
  refine hm.load?_of_untouched (fun e he s hsave hid => ?_) fun e he => h.keeps_records he _
  have hsaved : e.act.saved? = some s := by rw [hsave, Act.saved?]
  obtain hmain | ⟨i, s', q, task, here, hjob, hs⟩ := h.saved_cases he hsaved
  · -- what the sweep saves itself has run out, and is not due
    rw [hc, c.saved] at hmain
    obtain ⟨mark, hmark, rfl⟩ := List.mem_map.mp hmain
    have hlapsed := c.mem_marked.mp (List.mem_map_of_mem hmark)
    have hsame : mark.record = t.record := List.inj_on_of_nodup_map once hlapsed.1 hdue.1
      (CertificateRecord.id_markExpiredIfDue.symm.trans hid)
    exact CertificateRecord.not_isDue_of_runsOut hlapsed.2 (hsame ▸ hdue.2)
  · obtain ⟨t', ht', rfl, rfl⟩ := h.task_of_job hc here hjob
    obtain ⟨_, saved, _, _, _, hafter⟩ := h.afterDue hc ht'
    rw [hafter.saved] at hs
    have hs := Option.mem_toList.mp hs
    obtain rfl := c.eq_of_id once ht' ht ((hafter.id.1 s hs).symm.trans hid)
    have hnone := hafter.id.2
    rw [hkept, Option.mem_def.mp hs] at hnone
    cases hnone

/-- **What a sweep makes of the counts.** Each of its renewals is one attempt more than was counted
for its record before, comes to one outcome, and leaves the record as it was if it is put off. The
counts follow the outcomes. -/
theorem deferrals (h : Sweeping p w) {result : Except StoreError SweepReport}
    (hresult : w.returned 0 = some result) (once : w.ReadsOnce) (counts : Along World.Counts x w.log y) :
    (∀ id, y.attemptsOf id = (w.outcomesOf id).foldl RenewalOutcome.counted (x.attemptsOf id)) ∧
    ∀ i task, w.Renews i task → task.attempt = x.attemptsOf task.record.id + 1 ∧
      ∃ o, w.outcome? i = some (.due o) ∧ w.outcomesOf task.record.id = [o] ∧ (o.isKept = false →
        (∀ e ∈ w.path i, ∀ q, e.1 ≠ .records q) ∧
        ∀ m m' : MemoryStore, m.After w.log m' → m'.load? task.record.id = m.load? task.record.id) := by
  have hafter := h.afterSweep hresult
  generalize hpath : w.path 0 = path at hafter
  have hstays : ∀ id, (∀ i task, w.Renews i task → task.record.id ≠ id) →
      y.attemptsOf id = (w.outcomesOf id).foldl RenewalOutcome.counted (x.attemptsOf id) := by
    intro id hno
    rw [Weave.outcomesOf_eq_nil hno, List.foldl_nil]
    exact h.attemptsOf_of_not_renews counts hno
  cases hafter with
  | failed =>
    have hno := h.not_renews_of_failed hpath
    exact ⟨fun id => hstays id fun i task hrenews => absurd hrenews (hno i task),
      fun i task hrenews => absurd hrenews (hno i task)⟩
  | swept c =>
    have hnodup : (c.listed.map (·.id)).Nodup := once ⟨.records .list, .ok c.listed⟩ <| by
      rw [hpath]
      exact List.mem_cons_of_mem _ (List.mem_cons_of_mem _ List.mem_cons_self)
    refine ⟨fun id => ?_, fun i task hrenews => ?_⟩
    · by_cases hid : ∃ t ∈ c.tasks, t.record.id = id
      · obtain ⟨t, ht, rfl⟩ := hid
        rw [h.outcomesOf_task hpath hnodup ht, List.foldl_cons, List.foldl_nil]
        exact h.attemptsOf_task hpath hnodup counts ht
      · refine hstays id fun i task hrenews heq => ?_
        obtain ⟨t, ht, -, rfl⟩ := h.task_of_renews hpath hrenews
        exact hid ⟨t, ht, heq⟩
    · obtain ⟨t, ht, rfl, rfl⟩ := h.task_of_renews hpath hrenews
      obtain ⟨_, _, o, _, _, houtcome, ho, hends⟩ := h.ends_task hpath ht
      have hresult : t.result = o := by rw [Task.result, ho, dueOutcome]
      refine ⟨h.attempt_eq hpath counts ht, o, ho ▸ houtcome, ?_, fun hkept => ?_⟩
      · rw [h.outcomesOf_task hpath hnodup ht, hresult]
      · exact ⟨(deferral_of_ends hends).2 hkept, fun m m' hm =>
          h.load?_of_deferred hpath hnodup ht (hresult ▸ hkept) hm⟩

end Sweeping

/-! ### Sweeps one after the other -/

/-- Sweeps one after the other, each of which went to its end, and the world after the last one. A
sweep finds the counts as the one before left them; all else may have changed in between. -/
inductive InSuccession (p : RenewalPractice) :
    List (Weave (Except StoreError SweepReport)) → World → Prop
  | start {x : World} (fresh : x.attempts = []) : InSuccession p [] x
  | next {ws : List (Weave (Except StoreError SweepReport))} {x x' y : World}
    {w : Weave (Except StoreError SweepReport)} {result : Except StoreError SweepReport}
    (before : InSuccession p ws x) (same : x'.attempts = x.attempts) (sweeping : Sweeping p w)
    (returned : w.returned 0 = some result) (once : w.ReadsOnce) (counts : Along World.Counts x' w.log y) :
    InSuccession p (ws ++ [w]) y

namespace InSuccession

variable {p : RenewalPractice} {ws : List (Weave (Except StoreError SweepReport))} {x : World}

/-- **Every count is the number of times that the renewal was put off in a row.** -/
theorem attemptsOf_eq (h : InSuccession p ws x) (id : String) :
    x.attemptsOf id = putOff (ws.flatMap (·.outcomesOf id)) := by
  induction h with
  | start fresh => rw [World.attemptsOf, fresh]; rfl
  | @next ws x x' y w result before same sweeping returned once counts ih =>
    rw [(sweeping.deferrals returned once counts).1 id, World.attemptsOf_congr same, ih,
      List.flatMap_append, putOff_append, List.flatMap_singleton]

/-- **Renewals are put off and counted over any number of sweeps.** -/
theorem attempts_count_deferrals (h : InSuccession p ws x) :
    (∀ id, x.attemptsOf id = putOff (ws.flatMap (·.outcomesOf id))) ∧
    ∀ k w, ws[k]? = some w → ∀ i task, w.Renews i task →
      task.attempt = putOff ((ws.take k).flatMap (·.outcomesOf task.record.id)) + 1 ∧
      ∃ o, w.outcome? i = some (.due o) ∧ w.outcomesOf task.record.id = [o] ∧ (o.isKept = false →
        (∀ e ∈ w.path i, ∀ q, e.1 ≠ .records q) ∧
        ∀ m m' : MemoryStore, m.After w.log m' → m'.load? task.record.id = m.load? task.record.id) := by
  refine ⟨h.attemptsOf_eq, ?_⟩
  induction h with
  | start => simp
  | @next ws x x' y w result before same sweeping returned once counts ih =>
    intro k u hk i task hrenews
    obtain hlt | hle := Nat.lt_or_ge k ws.length
    · rw [List.getElem?_append_left hlt] at hk
      rw [List.take_append_of_le_length (Nat.le_of_lt hlt)]
      exact ih k u hk i task hrenews
    · rw [List.getElem?_append_right hle] at hk
      obtain ⟨hlast, rfl⟩ := List.getElem?_eq_some_iff.mp hk
      obtain rfl : k = ws.length := by
        simp at hlast
        omega
      simp only [Nat.sub_self, List.getElem_cons_zero] at hrenews ⊢
      rw [List.take_left, ← before.attemptsOf_eq, ← World.attemptsOf_congr same]
      exact (sweeping.deferrals returned once counts).2 i task hrenews

/-! ### Two sweeps -/

section

open Sweeping

/-- A world in which nothing was put off yet. -/
def sampleWorld : World where
  wall := { seconds := 0 }
  seed := []
  authority := .script {}

/-- A world in which one renewal was put off. -/
def laterWorld : World := { sampleWorld with attempts := [("cert_2", 1)] }

/-- The answers to the next sweep, which finds that record alone, and its count. -/
def laterAnswers : (a : Act) → Option a.Answer
  | .attempts _ => some (1 : Nat)
  | .records .list => some (.ok [sampleLate])
  | a => sweepAnswers a

/-- The next sweep. -/
def laterRun : Option (Weave (Except StoreError SweepReport)) :=
  (List.replicate 8 0 ++ List.replicate 35 1 ++ List.replicate 5 0).foldlM
    (Weave.play samplePractice.program laterAnswers) (Weave.start [sweep samplePractice])

theorem sampleRun_counts : (sampleRun firstOrder).map (fun w =>
    ((sampleWorld.follow w.log).map (·.attempts), w.outcomesOf "cert_1", w.outcomesOf "cert_2")) =
    some (some laterWorld.attempts, [.failed], [.transient]) := by
  rfl

theorem laterRun_counts : laterRun.map (fun w =>
    ((w.returned 0).isSome, (laterWorld.follow w.log).isSome,
      (w.path 0).all (fun e => decide ((e.1.reads e.2).map (·.id)).Nodup),
      w.outcomesOf "cert_1", w.outcomesOf "cert_2")) =
    some (true, true, true, [], [.transient]) := by
  rfl

/-- Of two records one fails for good and the other is put off, and then is put off again. -/
theorem attempts_count_deferrals_twice : ∃ w u x, sampleRun firstOrder = some w ∧
    laterRun = some u ∧ InSuccession samplePractice [w, u] x ∧ x.attemptsOf "cert_1" = 0 ∧
    x.attemptsOf "cert_2" = 2 ∧
    ∀ i task, u.Renews i task → task.record.id = "cert_2" → task.attempt = 2 := by
  obtain ⟨w, hw, hfacts⟩ := sampleRun_firstOrder
  obtain ⟨w', hw', hfirst⟩ := Option.map_eq_some_iff.mp sampleRun_counts
  obtain rfl := Option.some.inj (hw.symm.trans hw')
  obtain ⟨u, hu, hlater⟩ := Option.map_eq_some_iff.mp laterRun_counts
  simp only [Prod.mk.injEq] at hfirst hlater
  obtain ⟨hcounts, hfailed, hput⟩ := hfirst
  obtain ⟨hreturned, hfollow, hreads, hgone, hagain⟩ := hlater
  obtain ⟨y, hy, hsame⟩ := Option.map_eq_some_iff.mp hcounts
  obtain ⟨result, hresult⟩ := Option.isSome_iff_exists.mp hreturned
  obtain ⟨x, hx⟩ := Option.isSome_iff_exists.mp hfollow
  have hone : InSuccession samplePractice [w] y := .next (.start rfl) rfl
    (Weave.strides_of_play hw) hfacts.returned (Weave.readsOnce_of_after (by decide) hfacts.after)
    (World.counts_of_follow hy)
  have htwo : InSuccession samplePractice [w, u] x := .next hone hsame.symm
    (Weave.strides_of_play hu) hresult (fun e he => by simpa using List.all_eq_true.mp hreads e he)
    (World.counts_of_follow hx)
  obtain ⟨hattempts, htasks⟩ := attempts_count_deferrals htwo
  refine ⟨w, u, x, hw, hu, htwo, ?_, ?_, fun i task hrenews hid => ?_⟩
  · rw [hattempts, List.flatMap_cons, List.flatMap_singleton, hfailed, hgone]
    decide
  · rw [hattempts, List.flatMap_cons, List.flatMap_singleton, hput, hagain]
    decide
  · rw [(htasks 1 u rfl i task hrenews).1, hid, List.take_one, List.head?_cons, Option.toList_some,
      List.flatMap_singleton, hput]
    decide

end

end InSuccession

end CertSteward
