import CertSteward.Proofs.Renewal.Knowledge
import CertSteward.Proofs.Renewal.Sweeps
import CertSteward.Proofs.Run.Permits

/-!
# Who is at work in a sweep

A sweep makes as many permits as there are workers, once, and starts its renewals under them. A
renewal takes one before it does anything and gives it back at its end. So no more of them are at
work than there are workers, whatever happens between their requests.

This needs that nobody else has to do with permits: an issuance does not, nor do the errands for its
challenge records.

## Main definitions

* `RenewalPractice.Suits` — what the strands of a sweep ask for
* `working` — the conduct of a strand with respect to permits
* `Weave.AtWork` — renewals at work
* `Sweeping` — what a sweep and its renewals, all at the same time, can lead to

## Main results

* `working_sweep`, `working_renewDue` — a sweep and its renewals conduct themselves so
* `Sweeping.made` — renewals are started under the permits that the sweep made
* `Sweeping.asked` — what strands asked for
* `Sweeping.atWork_le` — no more renewals are at work than there are workers
-/

namespace CertSteward

open Steward Conduct

/-- The permits that an answer tells of as new. -/
def Act.made? : (a : Act) → a.Answer → Option Nat
  | .newPermits _, q => some q
  | _, _ => none

/-- What the permits of a sweep are to a strand. -/
structure Shift where
  /-- The first permits that it made. -/
  made : Option Nat := none
  /-- The permits of which it holds one. -/
  held : Option Nat := none

def Shift.next (s : Shift) (a : Act) (answer : a.Answer) : Shift where
  made := s.made.or (a.made? answer)
  held := a.permit? s.held answer

/-- What is asked for in a sweep by whom. Permits are made by the sweep itself, which starts its
renewals under them; these take and give back permits, and everybody else keeps away from permits
and records. How often the renewal of a record was put off is noted by that renewal alone. -/
def RenewalPractice.Suits (p : RenewalPractice) (job : Option Job) (made : Option Nat) : Act → Prop
  | .newPermits n => job = none ∧ n = p.workerCount
  | .spawn j => (∃ cell name value, j = .createRecord cell name value) ∨
      job = none ∧ ∃ q task, j = .renewDue q task ∧ made = some q
  | .wait (.permit q) | .givePermit q => ∃ task, job = some (.renewDue q task)
  | .wait (.all _) => ∃ q task, job = some (.renewDue q task)
  | .records .list => job = none
  | .records (.save _) => job = none ∨ ∃ q task, job = some (.renewDue q task)
  | .records _ => False
  | .setAttempts id _ => ∃ q task, job = some (.renewDue q task) ∧ task.record.id = id
  | _ => True

/-- What suits is asked for, by who is fair, and of errands nothing else is made a part. -/
def working (p : RenewalPractice) (job : Option Job) : Conduct Shift where
  may b s a := p.Suits job s.made a ∧ a.IsFair s.held ∧
    ∀ jobs, a = .wait (.all jobs) → ∀ j ∈ jobs, j.IsErrand b
  next := Shift.next

/-- The rules for a sweep and its renewals. -/
def sweepRules {β : Type} (p : RenewalPractice) : Rules β Shift where
  conduct _ := working p
  start _ := {}
  ends _ _ _ _ _ := True

variable {p : RenewalPractice} {q : Nat} {task : RenewalTask} {s : Shift} {b : Bool}

/-- Requests that have nothing to do with permits. -/
def Act.IsApart : Act → Prop
  | .newPermits _ | .givePermit _ | .wait (.permit _) => False
  | _ => True

theorem Shift.next_of_isApart {a : Act} (h : a.IsApart) (answer : a.Answer) :
    s.next a answer = s := by
  have hsame : (⟨s.made.or none, s.held⟩ : Shift) = s := by rw [Option.or_none]
  cases a with
  | newPermits | givePermit => exact h.elim
  | wait v =>
    cases v with
    | permit => exact h.elim
    | _ => exact hsame
  | _ => exact hsame

theorem Act.IsApart.isFair {a : Act} (h : a.IsApart) (held : Option Nat) : a.IsFair held := by
  cases a with
  | givePermit => exact h.elim
  | wait v =>
    cases v with
    | permit => exact h.elim
    | _ => trivial
  | _ => trivial

/-- Requests that sweeps and renewals make for their records. -/
def Act.IsBookkeeping (job : Option Job) : Act → Prop
  | .now | .wallClock | .halt | .records (.save _) | .attempts _ | .note _ => True
  | .isCancelled | .wait (.join _) => True
  | .setAttempts id _ => ∃ q task, job = some (.renewDue q task) ∧ task.record.id = id
  | _ => False

/-- Programs that keep books leave permits alone. -/
theorem working_bookkeeping {α : Type} {job : Option Job} {program : Steward α}
    (hjob : job = none ∨ ∃ q task, job = some (.renewDue q task))
    (h : Only (Act.IsBookkeeping job) program) :
    (working p job).Keeps (fun _ t _ => t = s) b s program := by
  have hall : ∀ a : Act, a.IsBookkeeping job →
      a.IsApart ∧ p.Suits job s.made a ∧ ∀ jobs, a ≠ .wait (.all jobs) := by
    intro a ha
    cases a with
    | wait v =>
      cases v with
      | join => exact ⟨trivial, trivial, nofun⟩
      | _ => exact ha.elim
    | records q =>
      cases q with
      | save => exact ⟨trivial, hjob, nofun⟩
      | _ => exact ha.elim
    | setAttempts => exact ⟨trivial, ha, nofun⟩
    | now | wallClock | halt | attempts | note | isCancelled => exact ⟨trivial, trivial, nofun⟩
    | _ => exact ha.elim
  refine Keeps.of_only_stay h (fun b a ha => ?_) fun a answer ha =>
    Shift.next_of_isApart (hall a ha).1 answer
  obtain ⟨hapart, hsuits, hsimple⟩ := hall a ha
  exact ⟨hsuits, hapart.isFair _, fun jobs hjobs => absurd hjobs (hsimple jobs)⟩

/-! ### Renewals -/

/-- A renewal at work has nothing to do with permits. -/
theorem working_renewRecord (o : RenewOptions) :
    (working p (some (.renewDue q task))).Keeps (fun _ t _ => t = s) false s
      (renewRecord p.issuance p.window task.record o) := by
  have hknowing : knowing.Keeps _ false [] (renewRecord p.issuance p.window task.record o) :=
    keeps_knowing_renewRecord p.issuance p.window task.record o
  refine ((hknowing.among (only_renewRecord _ _ _ _)).of_may ?_).mono fun _ _ _ h => h.1
  rintro b known a ⟨hmay, hissuing⟩
  have hapart : a.IsApart := by
    cases a with
    | newPermits | givePermit => exact hissuing.elim
    | wait v =>
      cases v with
      | permit => exact hissuing.elim
      | _ => trivial
    | _ => trivial
  refine ⟨⟨?_, hapart.isFair _, ?_⟩, Shift.next_of_isApart hapart⟩
  · cases a with
    | records | newPermits | givePermit | spawn | setAttempts => exact hissuing.elim
    | wait v =>
      cases v with
      | permit => exact hissuing.elim
      | all => exact ⟨q, task, rfl⟩
      | _ => trivial
    | _ => trivial
  · rintro jobs rfl
    exact hmay

theorem only_keepOutcome (o : RenewalOutcome) (record : Option CertificateRecord) :
    Only (Act.IsBookkeeping (some (.renewDue q task))) (keepOutcome task.record.id o record) := by
  have hset : ∀ n, Act.IsBookkeeping (some (.renewDue q task)) (.setAttempts task.record.id n) :=
    fun _ => ⟨q, task, rfl, rfl⟩
  cases o with
  | renewed | failed =>
    refine (only_perform (hset _)).bind fun _ => ?_
    cases record with
    | none => exact only_pure _
    | some s => exact (only_perform trivial).bind fun _ => only_pure _
  | transient => exact (only_perform trivial).bind fun _ => only_perform (hset _)
  | skipped | cancelled => exact only_pure _

/-- **A renewal takes a permit before it does anything, and gives it back.** -/
theorem working_renewDue :
    (working p (some (.renewDue q task))).Keeps (fun _ _ _ => True) false {} (renewDue p q task) := by
  have hgive : ∀ (b : Bool) (made : Option Nat) (outcome : RenewalOutcome),
      (working p (some (.renewDue q task))).Keeps (fun _ _ _ => True) b ⟨made, some q⟩ (do
        perform (.givePermit q)
        return outcome) :=
    fun _ _ _ => keeps_bind.mpr (keeps_perform.mpr ⟨⟨⟨task, rfl⟩, rfl, nofun⟩, fun _ _ => trivial⟩)
  unfold renewDue
  refine keeps_bind.mpr (keeps_perform.mpr ⟨⟨⟨task, rfl⟩, rfl, nofun⟩, ?_⟩)
  rintro (_ | _) possible
  · trivial
  refine keeps_bind.mpr (keeps_perform.mpr ⟨⟨trivial, trivial, nofun⟩, fun isCancelled _ => ?_⟩)
  cases isCancelled with
  | true => exact hgive _ _ _
  | false =>
    refine keeps_bind.mpr (Keeps.mono (Q := fun _ t _ => t = ⟨none, some q⟩) ?_ ?_)
    · unfold renewInSweep
      refine keeps_bind.mpr ((working_renewRecord _).mono ?_)
      rintro c t result rfl
      cases result <;>
        exact keeps_bind.mpr (working_bookkeeping (.inr ⟨q, task, rfl⟩) (only_keepOutcome _ _))
    · rintro c t outcome rfl
      exact hgive _ _ _

/-! ### Errands -/

/-- The errands for challenge records have nothing to do with permits or records. -/
theorem working_program {j : Job} (h : j.IsErrand b) :
    (working p (some j)).Keeps (fun _ _ _ => True) b {} (p.program j) := by
  refine ((keeps_program h).of_may ?_).mono fun _ _ _ _ => trivial
  intro b e a hmay
  have hapart : a.IsApart := by
    cases a with
    | newPermits | givePermit => cases hmay
    | wait v =>
      cases v with
      | permit => cases hmay.2
      | _ => trivial
    | _ => trivial
  refine ⟨⟨?_, hapart.isFair _, ?_⟩, Shift.next_of_isApart hapart⟩
  · cases a with
    | records | newPermits | givePermit | setAttempts => cases hmay
    | spawn j =>
      obtain ⟨cell, name, value, -, rfl⟩ := hmay
      exact .inl ⟨cell, name, value, rfl⟩
    | wait v =>
      cases v with
      | permit | all => cases hmay.2
      | _ => trivial
    | _ => trivial
  · rintro jobs rfl
    cases hmay.2

/-! ### Sweeps -/

theorem only_examine (window : RenewalWindow) (now : Instant) (acc : List RenewalTask × Nat)
    (r : CertificateRecord) : Only (Act.IsBookkeeping none) (examine window now acc r) := by
  refine Only.bind ?_ fun isDue => ?_
  · cases r.isDue? window now with
    | some isDue => exact only_pure _
    | none => exact ⟨trivial, nofun⟩
  cases isDue with
  | true => exact (only_perform trivial).bind fun _ => only_pure _
  | false =>
    cases r.autoRenew with
    | true => exact only_pure _
    | false =>
      refine Only.bind ?_ fun isOver => ?_
      · unfold expire
        cases r.isOver now with
        | false => exact only_pure _
        | true =>
          exact (only_perform trivial).bind fun _ => (only_perform trivial).bind fun _ => only_pure _
      · cases isOver <;> exact only_pure _

/-- **A sweep makes permits once, and starts its renewals under them.** -/
theorem working_sweep : (working p none).Keeps (fun _ _ _ => True) false {} (sweep p) := by
  unfold sweep
  refine keeps_bind.mpr (keeps_perform.mpr ⟨⟨trivial, trivial, nofun⟩, fun started _ => ?_⟩)
  refine keeps_bind.mpr (keeps_perform.mpr ⟨⟨trivial, trivial, nofun⟩, fun now _ => ?_⟩)
  refine keeps_bind.mpr (keeps_perform.mpr ⟨⟨rfl, trivial, nofun⟩, ?_⟩)
  rintro (e | rs) -
  · trivial
  refine keeps_bind.mpr ((working_bookkeeping (.inl rfl)
    (.foldlM (only_examine p.window now) rs ([], 0))).mono ?_)
  rintro _ _ ⟨due, expired⟩ rfl
  refine keeps_bind.mpr (keeps_perform.mpr ⟨⟨⟨rfl, rfl⟩, trivial, nofun⟩, fun permits _ => ?_⟩)
  refine keeps_bind.mpr (Keeps.mono (keeps_forMapM (I := fun _ t => t.made = some permits)
    (fun task _ b t ht => ?_) rfl) ?_)
  · refine keeps_perform.mpr ⟨⟨.inr ⟨rfl, permits, task, rfl, ht⟩, trivial, nofun⟩, fun n _ => ?_⟩
    exact (congrArg Shift.made (Shift.next_of_isApart (a := .spawn _) trivial n)).trans ht
  intro b t jobs _
  refine keeps_bind.mpr (Keeps.mono (working_bookkeeping (.inl rfl) (.mapM (fun job => ?_) jobs)) ?_)
  · exact (only_perform trivial).bind fun _ => (only_perform trivial).bind fun _ => only_pure _
  rintro c _ outcomes -
  refine keeps_bind.mpr (keeps_perform.mpr ⟨⟨trivial, trivial, nofun⟩, fun _ _ => ?_⟩)
  exact keeps_bind.mpr (keeps_perform.mpr ⟨⟨trivial, trivial, nofun⟩, fun _ _ => trivial⟩)

theorem sweepRules_covers {β : Type} : (sweepRules p : Rules β Shift).Covers p.program where
  spawn := by
    rintro run job b t j ⟨⟨cell, name, value, rfl⟩ | ⟨-, q, task, rfl, -⟩, -, -⟩
    · have herrand : (Job.createRecord cell name value).IsErrand false := rfl
      exact keeps_map.mpr ((working_program herrand).mono fun _ _ _ _ => trivial)
    · exact keeps_map.mpr (keeps_map.mpr (working_renewDue.mono fun _ _ _ _ => trivial))
  divide hmay j hj := keeps_map.mpr ((working_program (hmay.2.2 _ rfl j hj)).mono fun _ _ _ _ => trivial)

/-! ### Sweeps with their renewals -/

/-- A weave that a sweep can lead to. The sweep, its renewals and the errands for their challenge
records run at the same time. -/
def Sweeping (p : RenewalPractice) (w : Weave (Except StoreError SweepReport)) : Prop :=
  Weave.Strides p.program (Weave.start [sweep p]) w

/-- The permits that a sweep made. -/
def Weave.made? {β : Type} (w : Weave β) : Option Nat := (w.path 0).findSome? fun e => e.1.made? e.2

/-- Permits that were made stay the first that were. -/
theorem Weave.Turn.made? {β : Type} {program : Job → Steward Outcome} {w u : Weave β}
    (h : Turn program w u) (hq : w.made? = some q) : u.made? = some q := by
  obtain hlog | ⟨e, _, _, hlog, -⟩ := h.log_cases
  · rw [Weave.made?, path_congr hlog]
    exact hq
  · rw [Weave.made?, path_append hlog]
    split
    · rw [List.findSome?_append, show (w.path 0).findSome? _ = some q from hq]
      rfl
    · exact hq

/-- A renewal is at work: it has got its permit, which it has not given back. -/
def Weave.AtWork {β : Type} (w : Weave β) (i : Nat) : Prop :=
  ∃ t q task, w.strands[i]? = some t ∧ t.job = some (.renewDue q task) ∧ w.path i ≠ [] ∧
    ⟨.givePermit q, ()⟩ ∉ w.path i

namespace Sweeping

variable {w u : Weave (Except StoreError SweepReport)} {i : Nat}
variable {t : Strand (Except StoreError SweepReport)}

theorem holds (h : Sweeping p w) : (sweepRules p).Holds w := by
  refine Rules.holds_of_leads (fun i program hp => ?_) sweepRules_covers
    (fun _ _ => Weave.Stride.turn) h
  obtain ⟨-, rfl⟩ : i = 0 ∧ sweep p = program := by
    cases i with
    | zero => exact ⟨rfl, Option.some.inj hp⟩
    | succ i => cases hp
  exact keeps_map.mpr (working_sweep.mono fun _ _ _ _ => trivial)

theorem state_eq {run : Nat} {job : Option Job} : (sweepRules p).state w i run job =
    { made := (w.path i).findSome? fun e => e.1.made? e.2, held := w.permit? i } := by
  have hfold : ∀ (l : List Happening) (s : Shift), l.foldl (fun s e => s.next e.1 e.2) s =
      { made := s.made.or (l.findSome? fun e => e.1.made? e.2)
        held := l.foldl (fun held e => e.1.permit? held e.2) s.held } := by
    intro l
    induction l with
    | nil => exact fun s => congrArg (Shift.mk · s.held) (Option.or_none ..).symm
    | cons e l ih =>
      intro s
      rw [List.foldl_cons, ih, List.findSome?_cons, List.foldl_cons]
      refine congrArg (Shift.mk · _) ?_
      rw [Shift.next, Option.or_assoc]
      cases e.1.made? e.2 <;> rfl
  exact (hfold _ _).trans (congrArg (Shift.mk · _) (Option.none_or ..))

/-- The sweep is the only strand without a job. -/
theorem eq_zero_of_job (h : Sweeping p w) (here : w.strands[i]? = some t) (hjob : t.job = none) :
    i = 0 := by
  unfold Sweeping at h
  induction h generalizing i t with
  | refl =>
    obtain ⟨program, hp, rfl⟩ := Weave.start_here here
    cases i with
    | zero => rfl
    | succ i => cases hp
  | step _ hstep ih =>
    cases hstep.turn.origin here with
    | old here' hjob' => exact ih here' (hjob'.symm.trans hjob)
    | part _ _ _ _ _ hjob' => exact absurd (hjob'.symm.trans hjob) nofun
    | started _ _ _ _ hjob' => exact absurd (hjob'.symm.trans hjob) nofun

/-- What a strand asks for suits it. -/
theorem may (h : Sweeping p w) (here : w.strands[i]? = some t) {a : Act}
    {next : a.Answer → Steward (Outcome ⊕ Except StoreError SweepReport)}
    (asks : t.program = .ask a next) :
    p.Suits t.job ((w.path i).findSome? fun e => e.1.made? e.2) a ∧ a.IsFair (w.permit? i) ∧
      ∀ jobs, a = .wait (.all jobs) → ∀ j ∈ jobs, j.IsErrand t.isWatching := by
  have hgov := h.holds i t here
  rw [Rules.Governs, asks, state_eq] at hgov
  exact hgov.1

/-- **Renewals are started under the permits that the sweep made**, and on their own. -/
theorem made (h : Sweeping p w) (here : w.strands[i]? = some t)
    (hjob : t.job = some (.renewDue q task)) : t.owner = none ∧ w.made? = some q := by
  unfold Sweeping at h
  induction h generalizing i t with
  | refl =>
    obtain ⟨program, -, rfl⟩ := Weave.start_here here
    cases hjob
  | step hlead hstep ih =>
    cases hstep.turn.origin here with
    | old here' hjob' howner' =>
      obtain ⟨howner, hmade⟩ := ih here' (hjob'.symm.trans hjob)
      exact ⟨howner'.trans howner, hstep.turn.made? hmade⟩
    | part here' asks mem _ _ hjob' =>
      obtain rfl := Option.some.inj (hjob'.symm.trans hjob)
      exact absurd ((may hlead here' asks).2.2 _ rfl _ mem) id
    | started here' asks _ _ hjob' howner' =>
      obtain rfl := Option.some.inj (hjob'.symm.trans hjob)
      obtain ⟨⟨_, _, _, hother⟩ | ⟨hmain, _, _, heq, hmade⟩, -⟩ := may hlead here' asks
      · cases hother
      · cases heq
        obtain rfl := eq_zero_of_job hlead here' hmain
        exact ⟨howner', hstep.turn.made? hmade⟩

/-- **What strands asked for** suits them. -/
theorem asked (h : Sweeping p w) {e : Event} (he : e ∈ w.log) :
    ∃ t, w.strands[e.strand]? = some t ∧
      p.Suits t.job ((w.path e.strand).findSome? fun e => e.1.made? e.2) e.act := by
  have hstays : ∀ (job : Option Job) (s : Shift) (a a' : Act) (answer : a'.Answer),
      p.Suits job s.made a → p.Suits job (s.next a' answer).made a := by
    intro job s a a' answer hsuits
    cases a with
    | spawn j =>
      refine hsuits.imp_right fun ⟨hjob, q, task, hj, hmade⟩ => ⟨hjob, q, task, hj, ?_⟩
      rw [Shift.next, hmade]
      rfl
    | records q => cases q <;> exact hsuits
    | wait v => cases v <;> exact hsuits
    | _ => exact hsuits
  obtain ⟨t, ht, -, hsuits⟩ := Rules.asked_of_leads (R := sweepRules p)
    (Q := fun job s a => p.Suits job s.made a)
    (fun _ job _ s a hmay answer => hstays job s a a answer hmay.1)
    (fun _ => hstays) (fun _ _ => Weave.Stride.turn) (fun _ => holds) h he
  rw [state_eq] at hsuits
  exact ⟨t, ht, hsuits⟩

/-- The sweep makes as many permits as there are workers. -/
theorem newPermits_of_made? (h : Sweeping p w) (hq : w.made? = some q) :
    ⟨.newPermits p.workerCount, q⟩ ∈ w.path 0 := by
  obtain ⟨⟨a, answer⟩, hmem, hmade⟩ := List.exists_of_findSome?_eq_some hq
  cases a with
  | newPermits n =>
    obtain rfl := Option.some.inj hmade
    obtain ⟨run, he⟩ := Weave.mem_path.mp hmem
    obtain ⟨t, -, -, rfl⟩ := h.asked he
    exact hmem
  | _ => cases hmade

/-- **Permits are kept**: nobody gives back what it does not hold. -/
theorem permitsKept (h : Sweeping p w) : w.PermitsKept := by
  unfold Sweeping at h
  induction h with
  | refl => exact .start
  | step hlead hstep ih =>
    refine ih.stride (fun i t a next here asks => (may hlead here asks).2.1)
      (fun i t q next here asks => ?_) hstep
    obtain ⟨_, hjob⟩ := (may hlead here asks).1
    obtain ⟨-, hmade⟩ := made hlead here hjob
    obtain ⟨_, hq, -⟩ := ih.custody 0 _ q (newPermits_of_made? hlead hmade)
    exact (Array.getElem?_eq_some_iff.mp hq).1

/-- A renewal holds its permit for as long as it is at work. -/
theorem permit?_of_atWork (h : Sweeping p w) (hi : w.AtWork i) :
    ∃ q, w.made? = some q ∧ w.permit? i = some q := by
  obtain ⟨t, q, task, here, hjob, hbegun, hkept⟩ := hi
  obtain ⟨howner, hmade⟩ := h.made here hjob
  refine ⟨q, hmade, ?_⟩
  -- what it asks for after it has got the permit leaves it the permit
  have hrest : ∀ l : List Happening, (∀ e ∈ l, e ∈ w.path i) →
      l.foldl (fun held e => e.1.permit? held e.2) (some q) = some q := by
    intro l
    induction l with
    | nil => exact fun _ => rfl
    | cons e l ih =>
      intro hl
      rw [List.foldl_cons]
      obtain ⟨a, answer⟩ := e
      have hmem := hl _ List.mem_cons_self
      obtain ⟨run, he⟩ := Weave.mem_path.mp hmem
      obtain ⟨t', here', hsuits⟩ := h.asked he
      obtain rfl := Option.some.inj (here.symm.trans here')
      have hsame : a.permit? (some q) answer = some q := by
        cases a with
        | givePermit q' =>
          obtain ⟨_, hjob'⟩ := hsuits
          cases hjob.symm.trans hjob'
          exact absurd hmem hkept
        | wait v =>
          cases v with
          | permit q' =>
            obtain ⟨_, hjob'⟩ := hsuits
            cases hjob.symm.trans hjob'
            cases answer <;> rfl
          | _ => rfl
        | _ => rfl
      rw [hsame]
      exact ih fun e he => hl e (List.mem_cons_of_mem _ he)
  obtain ⟨b, program, hb, hbegin, hgoes⟩ := Weave.onCourse_of_strides h i t here
  obtain rfl := hb howner
  obtain ⟨hnone, -⟩ | ⟨j, hj, rfl⟩ := hbegin
  · cases hjob.symm.trans hnone
  obtain rfl := Option.some.inj (hjob.symm.trans hj)
  change Goes false (.ask (.wait (.permit q)) _) _ _ _ at hgoes
  rw [Weave.permit?]
  revert hrest hbegun
  generalize w.path i = path, t.isWatching = c, t.program = left at hgoes
  cases hgoes with
  | stay => exact fun hbegun => absurd rfl hbegun
  | @ask _ _ _ _ answer rest _ possible _ =>
    cases answer with
    | none => exact absurd (Act.canGet_wait_none.mp possible) Bool.false_ne_true
    | some => exact fun _ hrest => hrest rest fun e he => List.mem_cons_of_mem _ he

/-- **No more renewals are at work than there are workers.** -/
theorem atWork_le (h : Sweeping p w) {l : List Nat} (nodup : l.Nodup)
    (hl : ∀ i ∈ l, w.AtWork i) : l.length ≤ p.workerCount := by
  cases hmade : w.made? with
  | none =>
    have hnone : l = [] := List.eq_nil_iff_forall_not_mem.mpr fun i hi => by
      obtain ⟨q, hq, -⟩ := h.permit?_of_atWork (hl i hi)
      exact nomatch hmade.symm.trans hq
    rw [hnone]
    exact Nat.zero_le _
  | some q =>
    refine h.permitsKept.length_le (h.newPermits_of_made? hmade) nodup fun i hi => ?_
    obtain ⟨q', hq', hpermit⟩ := h.permit?_of_atWork (hl i hi)
    rw [hpermit, ← hq', hmade]

end Sweeping

end CertSteward
