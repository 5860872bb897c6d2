import CertSteward.Proofs.Issuance.Requests
import CertSteward.Proofs.Renewal.Records
import CertSteward.Proofs.Renewal.Selection
import CertSteward.Proofs.Run.Courses
import CertSteward.Proofs.Store.History
import CertSteward.Renewal.Sweep

/-!
# What sweeps and their renewals come to

A sweep reads the store once and decides at once what is due and what has run out. Then it starts a
renewal for each record that is due, waits for all of them and counts. A renewal of a sweep renews
one record and keeps what came of it. Both are said of every path through the programs.

## Main definitions

* `CertificateRecord.runsOut` — records that a sweep marks as expired
* `AfterDue` — what a renewal of a sweep comes to
* `Mark`, `Finding`, `Task` — what a sweep does with a record that has run out, or is due
* `SweepCourse`, `AfterSweep` — what a sweep comes to

## Main results

* `ends_renewDue`, `ends_sweep` — every end of a renewal and of a sweep
* `AfterDue.saved`, `SweepCourse.saved` — what they save
* `SweepCourse.started_eq`, `of_spawn_mem` — the renewals that a sweep starts
-/

namespace CertSteward

open Steward

/-- A record is issued, is not renewed unasked, and its expiry has come. -/
def CertificateRecord.runsOut (now : Instant) (r : CertificateRecord) : Bool :=
  r.status == .issued && !r.autoRenew && r.expiresAt.any fun e => decide (e ≤ now)

theorem CertificateRecord.runsOut_eq (now : Instant) (r : CertificateRecord) :
    r.runsOut now = (!r.autoRenew && r.isOver now) := by
  rw [runsOut, isOver, Bool.and_comm (r.status == .issued), Bool.and_assoc]

/-- Whether what came of a renewal is stored. -/
def RenewalOutcome.isKept : RenewalOutcome → Bool
  | renewed | failed => true
  | transient | skipped | cancelled => false

/-- What a renewal counts as. -/
def verdict : Except RecordFailure Renewal → RenewalOutcome
  | .ok _ => .renewed
  | .error f => .ofError f.error

/-! ### Renewals -/

/-- A renewal keeps to itself. -/
theorem only_renewRecord (p : IssuancePractice) (w : RenewalWindow) (r : CertificateRecord)
    (o : RenewOptions) : Only Act.IsIssuing (renewRecord p w r o) := by
  have hdated : ∀ {α : Type} (a : Option α), Only Act.IsIssuing (dated a) := by
    intro α a
    cases a with
    | some a => exact only_pure _
    | none => exact ⟨trivial, nofun⟩
  have hissue : Only Act.IsIssuing (issueFor p "renew" r o.lock) :=
    (only_perform trivial).bind fun _ => (only_issueCertificate p _ _).bind fun _ =>
      (only_perform trivial).bind fun _ => (only_perform trivial).bind fun _ =>
        (only_perform trivial).bind fun _ => only_pure _
  unfold renewRecord
  split
  · exact only_pure _
  refine (only_perform trivial).bind fun now => Only.bind ?_ fun goesOn => ?_
  · unfold renewsNow
    split
    · exact only_pure _
    · exact hdated _
  · cases goesOn with
    | false => exact only_pure _
    | true =>
      refine hissue.bind fun result => ?_
      cases result with
      | ok s => exact only_pure _
      | error e => exact (only_perform trivial).bind fun _ => only_pure _

/-- Requests other than to save a record leave the store as it is. -/
theorem Act.IsIssuing.saved? {a : Act} (h : a.IsIssuing) : a.saved? = none := by
  cases a with
  | records => exact h.elim
  | _ => rfl

/-- What a renewal of a sweep comes to: its outcome, and the record that it saves. -/
inductive AfterDue (p : RenewalPractice) (permits : Nat) (r : CertificateRecord) :
    List Happening → RenewalOutcome → Option CertificateRecord → Prop
  | cancelled : AfterDue p permits r
    [⟨.wait (.permit permits), some ()⟩, ⟨.isCancelled, true⟩, ⟨.givePermit permits, ()⟩]
    .cancelled none
  | renewed {run keeping : List Happening} {c : Bool} {result : Except RecordFailure Renewal}
    (ends : Ends false (renewRecord p.issuance p.window r { force := true, lock := .skip }) run c
      result)
    (keeps : keeping.filterMap (·.1.saved?) =
      if (verdict result).isKept then (recordOf result).toList else []) :
    AfterDue p permits r
      (⟨.wait (.permit permits), some ()⟩ :: ⟨.isCancelled, false⟩ :: run ++ keeping ++
        [⟨.givePermit permits, ()⟩])
      (verdict result) (if (verdict result).isKept then recordOf result else none)

variable {p : RenewalPractice} {permits : Nat} {r : CertificateRecord} {task : RenewalTask}
variable {path : List Happening}
variable {b c : Bool} {o : RenewalOutcome} {kept : Option CertificateRecord}

/-- It saves nothing else. -/
theorem AfterDue.saved (h : AfterDue p permits r path o kept) :
    path.filterMap (·.1.saved?) = kept.toList := by
  cases h with
  | cancelled => rfl
  | @renewed run keeping c result ends keeps =>
    have hrun : run.filterMap (·.1.saved?) = [] := List.filterMap_eq_nil_iff.mpr fun e he =>
      Act.IsIssuing.saved? ((only_renewRecord _ _ _ _).goes ends e he)
    simp only [List.cons_append, List.filterMap_cons, List.filterMap_append, hrun, keeps]
    cases (verdict result).isKept <;> simp [Act.saved?]

/-- What it saves has the name of the record, and there is something to save where there should be. -/
theorem AfterDue.id (h : AfterDue p permits r path o kept) :
    (∀ s ∈ kept, s.id = r.id) ∧ kept.isSome = o.isKept := by
  cases h with
  | cancelled => exact ⟨by simp, rfl⟩
  | @renewed run keeping c result ends _ =>
    obtain ⟨s, hs⟩ := ends_renewRecord ends
    rw [hs.recordOf_eq]
    cases (verdict result).isKept with
    | false => exact ⟨by simp, rfl⟩
    | true =>
      refine ⟨fun t ht => ?_, rfl⟩
      obtain rfl := Option.some.inj ht
      exact hs.continues.id

/-- A result ends what was counted, and the record that comes with it is saved. -/
theorem ends_keepOutcome_renewed {id : String} {record : Option CertificateRecord}
    (h : Ends b (keepOutcome id .renewed record) path c ()) :
    ∃ saves, path = ⟨.setAttempts id 0, ()⟩ :: saves ∧ (∀ e ∈ saves, ∃ r, e.1 = .records (.save r)) ∧
      saves.filterMap (·.1.saved?) = record.toList := by
  cases record with
  | none =>
    obtain ⟨_, _, _, _, rfl, hset, hdone⟩ := ends_bind_iff.mp h
    obtain ⟨rfl, -, -⟩ := ends_perform_iff.mp hset
    obtain ⟨rfl, -, -⟩ := ends_done_iff.mp hdone
    exact ⟨[], rfl, by simp, rfl⟩
  | some r =>
    obtain ⟨_, _, _, _, rfl, hset, hrest⟩ := ends_bind_iff.mp h
    obtain ⟨rfl, -, -⟩ := ends_perform_iff.mp hset
    obtain ⟨_, _, _, reply, rfl, hsave, hdone⟩ := ends_bind_iff.mp hrest
    obtain ⟨rfl, -, -⟩ := ends_perform_iff.mp hsave
    obtain ⟨rfl, -, -⟩ := ends_done_iff.mp hdone
    exact ⟨[⟨.records (.save r), reply⟩], rfl, by simp, rfl⟩

/-- What comes with an outcome that is stored is saved, and nothing else. -/
theorem ends_keepOutcome {id : String} {record : Option CertificateRecord}
    (h : Ends b (keepOutcome id o record) path c ()) :
    path.filterMap (·.1.saved?) = if o.isKept then record.toList else [] := by
  cases o with
  | renewed | failed =>
    obtain ⟨saves, rfl, -, hsaves⟩ := ends_keepOutcome_renewed h
    exact hsaves
  | skipped | cancelled =>
    obtain ⟨rfl, -, -⟩ := ends_done_iff.mp h
    rfl
  | transient =>
    obtain ⟨_, _, _, _, rfl, hget, hset⟩ := ends_bind_iff.mp h
    obtain ⟨rfl, -, -⟩ := ends_perform_iff.mp hget
    obtain ⟨rfl, -, -⟩ := ends_perform_iff.mp hset
    rfl

/-- A renewal in a sweep renews the record and keeps what came of it. -/
theorem ends_renewInSweep (h : Ends false (renewInSweep p r) path c o) :
    ∃ run keeping d result, path = run ++ keeping ∧ o = verdict result ∧
      Ends false (renewRecord p.issuance p.window r { force := true, lock := .skip }) run d result ∧
      Ends d (keepOutcome r.id (verdict result) (recordOf result)) keeping c () := by
  unfold renewInSweep at h
  obtain ⟨run, _, d, result, rfl, hrun, h⟩ := ends_bind_iff.mp h
  cases result with
  | ok renewal =>
    obtain ⟨keeping, _, _, _, rfl, hkeep, h⟩ := ends_bind_iff.mp h
    obtain ⟨rfl, rfl, rfl⟩ := ends_done_iff.mp h
    exact ⟨run, keeping, d, _, by rw [List.append_nil], rfl, hrun, hkeep⟩
  | error f =>
    obtain ⟨keeping, _, _, _, rfl, hkeep, h⟩ := ends_bind_iff.mp h
    obtain ⟨rfl, rfl, rfl⟩ := ends_done_iff.mp h
    exact ⟨run, keeping, d, _, by rw [List.append_nil], rfl, hrun, hkeep⟩

/-- A renewal of a sweep waits for its permit, and renews the record unless it is cancelled by
then. -/
theorem ends_renewDue_cases (h : Ends false (renewDue p permits task) path c o) :
    (path = [⟨.wait (.permit permits), some ()⟩, ⟨.isCancelled, true⟩, ⟨.givePermit permits, ()⟩] ∧
      o = .cancelled) ∨
    ∃ renewal, path = ⟨.wait (.permit permits), some ()⟩ :: ⟨.isCancelled, false⟩ :: renewal ++
        [⟨.givePermit permits, ()⟩] ∧ Ends false (renewInSweep p task.record) renewal c o := by
  unfold renewDue at h
  obtain ⟨_, _, _, got, rfl, hwait, h⟩ := ends_bind_iff.mp h
  obtain ⟨rfl, possible, rfl⟩ := ends_perform_iff.mp hwait
  cases got with
  | none => exact absurd (Act.canGet_wait_none.mp possible) Bool.false_ne_true
  | some =>
    obtain ⟨_, _, _, isCancelled, rfl, hask, h⟩ := ends_bind_iff.mp h
    obtain ⟨rfl, -, rfl⟩ := ends_perform_iff.mp hask
    cases isCancelled with
    | true =>
      obtain ⟨_, _, _, _, rfl, hnone, h⟩ := ends_bind_iff.mp h
      obtain ⟨rfl, rfl, rfl⟩ := ends_done_iff.mp hnone
      obtain ⟨_, _, _, _, rfl, hgive, h⟩ := ends_bind_iff.mp h
      obtain ⟨rfl, -, rfl⟩ := ends_perform_iff.mp hgive
      obtain ⟨rfl, -, rfl⟩ := ends_done_iff.mp h
      exact .inl ⟨rfl, rfl⟩
    | false =>
      obtain ⟨renewal, _, _, _, rfl, hrenew, hlast⟩ := ends_bind_iff.mp h
      obtain ⟨_, _, _, _, rfl, hgive, hdone⟩ := ends_bind_iff.mp hlast
      obtain ⟨rfl, -, rfl⟩ := ends_perform_iff.mp hgive
      obtain ⟨rfl, rfl, rfl⟩ := ends_done_iff.mp hdone
      exact .inr ⟨renewal, by simp, hrenew⟩

/-- **Every end of a renewal of a sweep.** -/
theorem ends_renewDue (h : Ends false (renewDue p permits task) path c o) :
    ∃ kept, AfterDue p permits task.record path o kept := by
  obtain ⟨rfl, rfl⟩ | ⟨renewal, rfl, hrenewal⟩ := ends_renewDue_cases h
  · exact ⟨_, .cancelled⟩
  · obtain ⟨run, keeping, d, result, rfl, rfl, hrun, hkeep⟩ := ends_renewInSweep hrenewal
    have hend : AfterDue p permits task.record _ _ _ := .renewed hrun (ends_keepOutcome hkeep)
    exact ⟨_, by simpa using hend⟩

/-! ### Sweeps -/

/-- A record that was marked as expired: when that was noted, and whether it could be saved. -/
structure Mark where
  record : CertificateRecord
  clock : Instant
  reply : Except StoreError Unit

/-- What is saved. -/
def Mark.marked (now : Instant) (m : Mark) : CertificateRecord :=
  m.record.markExpiredIfDue now m.clock

def Mark.noting (now : Instant) (m : Mark) : List Happening :=
  [⟨.wallClock, m.clock⟩, ⟨.records (.save (m.marked now)), m.reply⟩]

/-- A record with which there is something to do: it is due, so it is asked how often its renewal was
put off, or it has run out. -/
inductive Finding
  | due (r : CertificateRecord) (putOff : Nat)
  | lapsed (m : Mark)

namespace Finding

def noting (now : Instant) : Finding → List Happening
  | due r n => [⟨.attempts r.id, n⟩]
  | lapsed m => m.noting now

/-- The renewal that is to be made. -/
def task? : Finding → Option RenewalTask
  | due r n => some { record := r, attempt := n + 1 }
  | lapsed _ => none

/-- The mark that was made. -/
def mark? : Finding → Option Mark
  | due _ _ => none
  | lapsed m => some m

end Finding

/-- A renewal that a sweep started, and what came of it. -/
structure Task extends RenewalTask where
  strand : Nat
  outcome : Outcome

/-- What that counts as. -/
def Task.result (t : Task) : RenewalOutcome := dueOutcome t.outcome

def Task.spawn (permits : Nat) (t : Task) : Happening :=
  ⟨.spawn (.renewDue permits t.toRenewalTask), t.strand⟩

def Task.join (t : Task) : List Happening :=
  [⟨.wait (.join t.strand), some t.outcome⟩, ⟨.note (.renewal t.result.text), ()⟩]

/-- Renewals, strands and outcomes make up tasks, if there are as many of each. -/
theorem exists_tasks {due : List RenewalTask} {strands : List Nat} {outcomes : List Outcome}
    (hstrands : strands.length = due.length) (houtcomes : outcomes.length = strands.length) :
    ∃ tasks : List Task, tasks.map (·.toRenewalTask) = due ∧ tasks.map (·.strand) = strands ∧
      tasks.map (·.outcome) = outcomes := by
  have hrest : (due.zip (strands.zip outcomes)).map Prod.snd = strands.zip outcomes :=
    List.map_snd_zip (by simp [hstrands, houtcomes])
  refine ⟨(due.zip (strands.zip outcomes)).map fun x => ⟨x.1, x.2.1, x.2.2⟩, ?_, ?_, ?_⟩ <;>
    rw [List.map_map]
  · exact List.map_fst_zip (by simp [hstrands, houtcomes])
  · calc _ = ((due.zip (strands.zip outcomes)).map Prod.snd).map Prod.fst := (List.map_map ..).symm
      _ = strands := by rw [hrest, List.map_fst_zip (Nat.le_of_eq houtcomes.symm)]
  · calc _ = ((due.zip (strands.zip outcomes)).map Prod.snd).map Prod.snd := (List.map_map ..).symm
      _ = outcomes := by rw [hrest, List.map_snd_zip (Nat.le_of_eq houtcomes)]

/-- The course of a sweep to its end: it marks what has run out, starts a renewal for each record that
is due, and counts what comes of these. -/
structure SweepCourse (p : RenewalPractice) where
  started : Duration
  now : Instant
  listed : List CertificateRecord
  findings : List Finding
  permits : Nat
  tasks : List Task
  ended : Duration
  found : tasks.map (·.toRenewalTask) = findings.filterMap Finding.task?
  due : selectDue? listed p.window now = some (tasks.map (·.record))
  lapsed : (findings.filterMap Finding.mark?).map (·.record) = listed.filter (·.runsOut now)

namespace SweepCourse

/-- What has run out. -/
def marks (c : SweepCourse p) : List Mark := c.findings.filterMap Finding.mark?

theorem marked (c : SweepCourse p) : c.marks.map (·.record) = c.listed.filter (·.runsOut c.now) :=
  c.lapsed

/-- What happens after the store was read. -/
def later (c : SweepCourse p) : List Happening :=
  c.findings.flatMap (Finding.noting c.now) ++ ⟨.newPermits p.workerCount, c.permits⟩ ::
    c.tasks.map (Task.spawn c.permits) ++ c.tasks.flatMap Task.join ++
    [⟨.note .sweep, ()⟩, ⟨.now, c.ended⟩]

def happenings (c : SweepCourse p) : List Happening :=
  ⟨.now, c.started⟩ :: ⟨.wallClock, c.now⟩ :: ⟨.records .list, .ok c.listed⟩ :: c.later

def report (c : SweepCourse p) : SweepReport where
  scanned := c.listed.length
  selected := c.tasks.length
  outcomes := c.tasks.map Task.result
  expired := c.marks.length
  duration := c.ended - c.started

end SweepCourse

/-- What a sweep comes to. -/
inductive AfterSweep (p : RenewalPractice) : List Happening → Except StoreError SweepReport → Prop
  | failed {started : Duration} {now : Instant} {e : StoreError} : AfterSweep p
    [⟨.now, started⟩, ⟨.wallClock, now⟩, ⟨.records .list, .error e⟩] (.error e)
  | swept (c : SweepCourse p) : AfterSweep p c.happenings (.ok c.report)

theorem ends_dated {α : Type} {a : Option α} {x : α} (h : Ends b (dated a) path c x) :
    path = [] ∧ c = b ∧ a = some x := by
  cases a with
  | some y =>
    obtain ⟨rfl, rfl, rfl⟩ := ends_done_iff.mp h
    exact ⟨rfl, rfl, rfl⟩
  | none =>
    obtain ⟨answer, _⟩ := ends_ask_iff.mp h
    exact answer.elim

/-- A record that has run out is marked as expired. -/
theorem ends_expire {now : Instant} {isOver : Bool} (h : Ends false (expire now r) path c isOver) :
    c = false ∧ isOver = r.isOver now ∧ ∃ found : List Finding, found.filterMap Finding.task? = [] ∧
      (found.filterMap Finding.mark?).map (·.record) = [r].filter (·.isOver now) ∧
      path = found.flatMap (Finding.noting now) := by
  unfold expire at h
  cases hover : r.isOver now with
  | false =>
    rw [hover] at h
    obtain ⟨rfl, rfl, rfl⟩ := ends_done_iff.mp h
    exact ⟨rfl, rfl, [], rfl, by simp [hover], rfl⟩
  | true =>
    rw [hover] at h
    obtain ⟨_, _, _, clock, rfl, hclock, h⟩ := ends_bind_iff.mp h
    obtain ⟨rfl, -, rfl⟩ := ends_perform_iff.mp hclock
    obtain ⟨_, _, _, reply, rfl, hsave, h⟩ := ends_bind_iff.mp h
    obtain ⟨rfl, -, rfl⟩ := ends_perform_iff.mp hsave
    obtain ⟨rfl, rfl, rfl⟩ := ends_done_iff.mp h
    exact ⟨rfl, rfl, [.lapsed ⟨r, clock, reply⟩], rfl, by simp [hover, Finding.mark?], rfl⟩

/-- What was found where a record was looked at. -/
structure Finds (now : Instant) (rs due : List CertificateRecord) (found : List Finding) : Prop where
  tasks : (found.filterMap Finding.task?).map (·.record) = due
  marks : (found.filterMap Finding.mark?).map (·.record) = rs.filter (·.runsOut now)

theorem Finds.append {now : Instant} {rs rs' due due' : List CertificateRecord}
    {found found' : List Finding} (h : Finds now rs due found) (h' : Finds now rs' due' found') :
    Finds now (rs ++ rs') (due ++ due') (found ++ found') where
  tasks := by rw [List.filterMap_append, List.map_append, h.tasks, h'.tasks]
  marks := by rw [List.filterMap_append, List.map_append, h.marks, h'.marks, List.filter_append]

/-- What was looked at adds to the renewals and the marks. -/
def Finding.add (found : List Finding) (acc : List RenewalTask × Nat) : List RenewalTask × Nat :=
  (acc.1 ++ found.filterMap task?, acc.2 + (found.filterMap mark?).length)

theorem Finding.add_append (found found' : List Finding) (acc : List RenewalTask × Nat) :
    add (found ++ found') acc = add found' (add found acc) := by
  simp [add, Nat.add_assoc]

/-- A record is due, has run out or is left alone. -/
theorem ends_examine {window : RenewalWindow} {now : Instant} {acc acc' : List RenewalTask × Nat}
    (h : Ends false (examine window now acc r) path c acc') :
    c = false ∧ ∃ isDue, r.isDue? window now = some isDue ∧ ∃ found : List Finding,
      Finds now [r] (if isDue then [r] else []) found ∧
      path = found.flatMap (Finding.noting now) ∧ acc' = Finding.add found acc := by
  unfold examine at h
  obtain ⟨_, _, _, isDue, rfl, hdated, h⟩ := ends_bind_iff.mp h
  obtain ⟨rfl, rfl, hisDue⟩ := ends_dated hdated
  cases isDue with
  | true =>
    obtain ⟨_, _, _, n, rfl, hasked, h⟩ := ends_bind_iff.mp h
    obtain ⟨rfl, -, rfl⟩ := ends_perform_iff.mp hasked
    obtain ⟨rfl, rfl, rfl⟩ := ends_done_iff.mp h
    have hauto : r.autoRenew = true := by
      unfold CertificateRecord.isDue? at hisDue
      split at hisDue
      · rename_i hopen
        exact hopen.2
      · cases hisDue
    refine ⟨rfl, true, hisDue, [.due r n], ⟨rfl, ?_⟩, rfl, rfl⟩
    simp [Finding.mark?, CertificateRecord.runsOut_eq, hauto]
  | false =>
    cases hauto : r.autoRenew with
    | true =>
      rw [hauto] at h
      obtain ⟨rfl, rfl, rfl⟩ := ends_done_iff.mp h
      exact ⟨rfl, false, hisDue, [], ⟨rfl, by simp [CertificateRecord.runsOut_eq, hauto]⟩, rfl,
        by simp [Finding.add]⟩
    | false =>
      rw [hauto] at h
      obtain ⟨_, _, _, isOver, rfl, hexpire, hdone⟩ := ends_bind_iff.mp h
      obtain ⟨rfl, rfl, found, htasks, hmarks, rfl⟩ := ends_expire hexpire
      have hfinds : Finds now [r] [] found := by
        refine ⟨by rw [htasks]; rfl, ?_⟩
        simpa [List.filter_cons, CertificateRecord.runsOut_eq, hauto] using hmarks
      have hlen := congrArg List.length hmarks
      simp only [List.length_map, List.filter_cons, List.filter_nil] at hlen
      cases hover : r.isOver now <;> rw [hover] at hdone hlen <;>
        obtain ⟨rfl, rfl, rfl⟩ := ends_done_iff.mp hdone <;>
        exact ⟨rfl, false, hisDue, found, hfinds, by rw [List.append_nil, List.nil_append],
          by simp [Finding.add, htasks, hlen]⟩

/-- Records are looked at one after the other. -/
theorem ends_examine_all {window : RenewalWindow} {now : Instant} {rs : List CertificateRecord}
    {acc acc' : List RenewalTask × Nat}
    (h : Ends false (rs.foldlM (examine window now) acc) path c acc') :
    c = false ∧ ∃ due, selectDue? rs window now = some due ∧ ∃ found : List Finding,
      Finds now rs due found ∧ path = found.flatMap (Finding.noting now) ∧
      acc' = Finding.add found acc := by
  induction rs generalizing acc path with
  | nil =>
    obtain ⟨rfl, rfl, rfl⟩ := ends_done_iff.mp h
    exact ⟨rfl, [], rfl, [], ⟨rfl, rfl⟩, rfl, by simp [Finding.add]⟩
  | cons r rs ih =>
    rw [List.foldlM_cons] at h
    obtain ⟨_, _, _, acc₁, rfl, hr, hrs⟩ := ends_bind_iff.mp h
    obtain ⟨rfl, isDue, hisDue, found, hfound, rfl, rfl⟩ := ends_examine hr
    obtain ⟨rfl, due, hdue, found', hfound', rfl, rfl⟩ := ih hrs
    refine ⟨rfl, (if isDue then [r] else []) ++ due, ?_, found ++ found', hfound.append hfound',
      List.flatMap_append.symm, (Finding.add_append ..).symm⟩
    rw [selectDue?_cons, hisDue, Option.bind_some, hdue, Option.map_some]

/-- Renewals are started one after the other. -/
theorem ends_spawn_all {due : List RenewalTask} {strands : List Nat}
    (h : Ends false (due.mapM fun t => perform (.spawn (.renewDue permits t))) path c strands) :
    c = false ∧ strands.length = due.length ∧
      path = (due.zip strands).map fun x => ⟨.spawn (.renewDue permits x.1), x.2⟩ := by
  induction due generalizing path strands with
  | nil =>
    rw [List.mapM_nil] at h
    obtain ⟨rfl, rfl, rfl⟩ := ends_done_iff.mp h
    exact ⟨rfl, rfl, rfl⟩
  | cons task due ih =>
    rw [List.mapM_cons] at h
    obtain ⟨_, _, _, n, rfl, hspawn, hrest⟩ := ends_bind_iff.mp h
    obtain ⟨rfl, -, rfl⟩ := ends_perform_iff.mp hspawn
    obtain ⟨_, _, _, ns, rfl, hns, hdone⟩ := ends_bind_iff.mp hrest
    obtain ⟨rfl, rfl, rfl⟩ := ends_done_iff.mp hdone
    obtain ⟨rfl, hlen, rfl⟩ := ih hns
    exact ⟨rfl, by simp [hlen], by simp⟩

/-- Renewals are waited for one after the other. -/
theorem ends_collect {strands : List Nat} {results : List RenewalOutcome}
    (h : Ends false (collect strands) path c results) :
    c = false ∧ ∃ outcomes : List Outcome, outcomes.length = strands.length ∧
      results = outcomes.map dueOutcome ∧
      path = (strands.zip outcomes).flatMap fun x => [⟨.wait (.join x.1), some x.2⟩,
        ⟨.note (.renewal (dueOutcome x.2).text), ()⟩] := by
  unfold collect at h
  induction strands generalizing path results with
  | nil =>
    rw [List.mapM_nil] at h
    obtain ⟨rfl, rfl, rfl⟩ := ends_done_iff.mp h
    exact ⟨rfl, [], rfl, rfl, rfl⟩
  | cons n ns ih =>
    rw [List.mapM_cons] at h
    obtain ⟨_, _, _, o, rfl, hone, hrest⟩ := ends_bind_iff.mp h
    obtain ⟨_, _, _, got, rfl, hwait, hlast⟩ := ends_bind_iff.mp hone
    obtain ⟨rfl, possible, rfl⟩ := ends_perform_iff.mp hwait
    cases got with
    | none => exact absurd (Act.canGet_wait_none.mp possible) Bool.false_ne_true
    | some outcome =>
      obtain ⟨_, _, _, _, rfl, hnote, hpure⟩ := ends_bind_iff.mp hlast
      obtain ⟨rfl, -, rfl⟩ := ends_perform_iff.mp hnote
      obtain ⟨rfl, rfl, rfl⟩ := ends_done_iff.mp hpure
      obtain ⟨_, _, _, os, rfl, hos, hdone⟩ := ends_bind_iff.mp hrest
      obtain ⟨rfl, rfl, rfl⟩ := ends_done_iff.mp hdone
      obtain ⟨rfl, outcomes, hlen, rfl, rfl⟩ := ih hos
      exact ⟨rfl, outcome :: outcomes, by simp [hlen], rfl, by simp⟩

/-- **Every end of a sweep.** -/
theorem ends_sweep {result : Except StoreError SweepReport}
    (h : Ends false (sweep p) path c result) : AfterSweep p path result := by
  unfold sweep at h
  obtain ⟨_, _, _, started, rfl, hstarted, h⟩ := ends_bind_iff.mp h
  obtain ⟨rfl, -, rfl⟩ := ends_perform_iff.mp hstarted
  obtain ⟨_, _, _, now, rfl, hnow, h⟩ := ends_bind_iff.mp h
  obtain ⟨rfl, -, rfl⟩ := ends_perform_iff.mp hnow
  obtain ⟨_, _, _, listed, rfl, hlist, h⟩ := ends_bind_iff.mp h
  obtain ⟨rfl, -, rfl⟩ := ends_perform_iff.mp hlist
  cases listed with
  | error e =>
    obtain ⟨rfl, -, rfl⟩ := ends_done_iff.mp h
    exact .failed
  | ok rs =>
    obtain ⟨_, _, _, acc, rfl, hall, hrest⟩ := ends_bind_iff.mp h
    obtain ⟨rfl, due, hdue, found, hfound, rfl, rfl⟩ := ends_examine_all hall
    rw [Finding.add, List.nil_append, Nat.zero_add] at hrest
    obtain ⟨_, _, _, permits, rfl, hpermits, hstart⟩ := ends_bind_iff.mp hrest
    obtain ⟨rfl, -, rfl⟩ := ends_perform_iff.mp hpermits
    obtain ⟨_, _, _, strands, rfl, hspawn, hwait⟩ := ends_bind_iff.mp hstart
    obtain ⟨rfl, hstrands, rfl⟩ := ends_spawn_all hspawn
    obtain ⟨_, _, _, results, rfl, hcollect, hlast⟩ := ends_bind_iff.mp hwait
    obtain ⟨rfl, outcomes, houtcomes, rfl, rfl⟩ := ends_collect hcollect
    obtain ⟨_, _, _, _, rfl, hnote, hclock⟩ := ends_bind_iff.mp hlast
    obtain ⟨rfl, -, rfl⟩ := ends_perform_iff.mp hnote
    obtain ⟨_, _, _, ended, rfl, hended, hdone⟩ := ends_bind_iff.mp hclock
    obtain ⟨rfl, -, rfl⟩ := ends_perform_iff.mp hended
    obtain ⟨rfl, -, rfl⟩ := ends_done_iff.mp hdone
    obtain ⟨tasks, htasks, rfl, rfl⟩ := exists_tasks hstrands houtcomes
    have hspawns : ((found.filterMap Finding.task?).zip (tasks.map (·.strand))).map
        (fun x => (⟨.spawn (.renewDue permits x.1), x.2⟩ : Happening)) =
          tasks.map (Task.spawn permits) := by
      rw [← htasks, List.zip_map', List.map_map]
      rfl
    have hdue : selectDue? rs p.window now = some (tasks.map (·.record)) := by
      rw [hdue, ← hfound.tasks, ← htasks, List.map_map]
      rfl
    have hjoins : ((tasks.map (·.strand)).zip (tasks.map (·.outcome))).flatMap
        (fun x => [⟨.wait (.join x.1), some x.2⟩, ⟨.note (.renewal (dueOutcome x.2).text), ()⟩]) =
          tasks.flatMap Task.join := by
      rw [List.zip_map', List.flatMap_map]
      rfl
    have hresults : (tasks.map (·.outcome)).map dueOutcome = tasks.map Task.result := List.map_map ..
    rw [hspawns, hjoins, hresults, ← htasks, List.length_map]
    have hend := AfterSweep.swept (p := p)
      ⟨started, now, rs, found, permits, tasks, ended, htasks, hdue, hfound.marks⟩
    simpa [SweepCourse.happenings, SweepCourse.later, SweepCourse.report, SweepCourse.marks] using hend

/-! ### What is in the course of a sweep -/

/-- The record of which a renewal is started. -/
def Act.renewed? : Act → Option CertificateRecord
  | .spawn (.renewDue _ t) => some t.record
  | _ => none

/-- What the clock shows. -/
def Act.clock? : (a : Act) → a.Answer → Option Instant
  | .wallClock, t => some t
  | _, _ => none

namespace SweepCourse

variable (c : SweepCourse p)

/-- What is not in the marks is left out if neither tasks nor the rest has it. -/
theorem filterMap_happenings {γ : Type} {f : Happening → Option γ}
    (hasked : ∀ id n, f ⟨.attempts id, n⟩ = none)
    (hspawn : ∀ t : Task, f (t.spawn c.permits) = none) (hjoin : ∀ t : Task, t.join.filterMap f = [])
    (hrest : ([⟨.records .list, .ok c.listed⟩, ⟨.newPermits p.workerCount, c.permits⟩,
      ⟨.note .sweep, ()⟩, ⟨.now, c.started⟩, ⟨.now, c.ended⟩] : List Happening).filterMap f = []) :
    c.happenings.filterMap f = (f ⟨.wallClock, c.now⟩).toList ++
      c.marks.flatMap fun m => (m.noting c.now).filterMap f := by
  have hspawns : (c.tasks.map (Task.spawn c.permits)).filterMap f = [] := by
    rw [List.filterMap_eq_nil_iff]
    intro e he
    obtain ⟨t, -, rfl⟩ := List.mem_map.mp he
    exact hspawn t
  have hjoins : (c.tasks.flatMap Task.join).filterMap f = [] := by
    rw [List.filterMap_eq_nil_iff]
    intro e he
    obtain ⟨t, -, ht⟩ := List.mem_flatMap.mp he
    exact List.filterMap_eq_nil_iff.mp (hjoin t) e ht
  have hfindings : (c.findings.flatMap (Finding.noting c.now)).filterMap f =
      c.marks.flatMap fun m => (m.noting c.now).filterMap f := by
    rw [marks]
    induction c.findings with
    | nil => rfl
    | cons x findings ih =>
      rw [List.flatMap_cons, List.filterMap_append, ih]
      cases x with
      | due r n =>
        rw [List.filterMap_cons_none rfl]
        simp [Finding.noting, hasked]
      | lapsed m => rfl
  have hall := List.filterMap_eq_nil_iff.mp hrest
  simp only [List.forall_mem_cons] at hall
  obtain ⟨hlist, hnew, hnote, hstart, hend, -⟩ := hall
  simp only [happenings, later, List.filterMap_cons, List.filterMap_append, hlist, hnew, hnote,
    hstart, hend, hspawns, hjoins, hfindings, List.filterMap_nil, List.append_nil]
  cases f ⟨.wallClock, c.now⟩ <;> rfl

theorem saved : c.happenings.filterMap (·.1.saved?) = c.marks.map (·.marked c.now) := by
  rw [filterMap_happenings c (fun _ _ => rfl) (fun _ => rfl) (fun _ => rfl) rfl]
  exact List.flatMap_pure_eq_map ..

theorem clocks : c.happenings.filterMap (fun e => e.1.clock? e.2) =
    c.now :: c.marks.map (·.clock) := by
  rw [filterMap_happenings c (fun _ _ => rfl) (fun _ => rfl) (fun _ => rfl) rfl]
  exact congrArg (c.now :: ·) (List.flatMap_pure_eq_map ..)

/-- The renewals that were started are those of the tasks. -/
theorem started_eq : c.happenings.filterMap (·.1.renewed?) = c.tasks.map (·.record) := by
  have hfindings : (c.findings.flatMap (Finding.noting c.now)).filterMap (·.1.renewed?) = [] := by
    rw [List.filterMap_flatMap]
    exact List.flatMap_eq_nil_iff.mpr fun x _ => by cases x <;> rfl
  have hjoins : (c.tasks.flatMap Task.join).filterMap (·.1.renewed?) = [] := by
    rw [List.filterMap_flatMap]
    exact List.flatMap_eq_nil_iff.mpr fun _ _ => rfl
  have hspawns : (c.tasks.map (Task.spawn c.permits)).filterMap (·.1.renewed?) =
      c.tasks.map (·.record) := by
    rw [List.filterMap_map]
    exact congrFun (List.filterMap_eq_map ..) _
  simp only [happenings, later, List.filterMap_cons, List.filterMap_append, hfindings, hjoins, hspawns]
  exact List.append_nil _ |>.trans (List.append_nil _)

theorem spawn_mem {t : Task} (ht : t ∈ c.tasks) : t.spawn c.permits ∈ c.happenings := by
  simp only [happenings, later, List.mem_cons, List.mem_append]
  exact .inr (.inr (.inr (.inl (.inl (.inr (.inr (List.mem_map_of_mem ht)))))))

theorem join_mem {t : Task} (ht : t ∈ c.tasks) :
    ⟨.wait (.join t.strand), some t.outcome⟩ ∈ c.happenings := by
  simp only [happenings, later, List.mem_cons, List.mem_append]
  exact .inr (.inr (.inr (.inl (.inr (List.mem_flatMap.mpr ⟨t, ht, List.mem_cons_self⟩)))))

/-- Jobs that a sweep starts are the renewals of its tasks. -/
theorem of_spawn_mem {j : Job} {n : Nat} (h : ⟨.spawn j, n⟩ ∈ c.happenings) :
    ∃ t ∈ c.tasks, j = .renewDue c.permits t.toRenewalTask ∧ n = t.strand := by
  simp only [happenings, later, List.mem_cons, List.mem_append, List.mem_flatMap, List.mem_map] at h
  obtain h | h | h | ((⟨x, -, h⟩ | h | ⟨t, ht, h⟩) | ⟨t, -, h⟩) | h | h | h := h
  case inr.inr.inr.inl.inl.inr.inr =>
    cases h
    exact ⟨t, ht, rfl, rfl⟩
  case inr.inr.inr.inl.inl.inl => cases x <;> simp [Finding.noting, Mark.noting] at h
  all_goals simp [Task.join] at h

/-- A sweep looks at all records once. -/
theorem before_list {before after : List Happening} {reply : Except StoreError (List CertificateRecord)}
    (h : c.happenings = before ++ ⟨.records .list, reply⟩ :: after) :
    before = [⟨.now, c.started⟩, ⟨.wallClock, c.now⟩] := by
  match before with
  | [] => cases h
  | [_] => cases h
  | [_, _] =>
    cases h
    rfl
  | _ :: _ :: _ :: before =>
    simp only [happenings, List.cons_append, List.cons.injEq] at h
    have hmem : ⟨.records .list, reply⟩ ∈ c.later := by
      rw [h.2.2.2]
      exact List.mem_append_right _ List.mem_cons_self
    simp only [later, List.mem_cons, List.mem_append, List.mem_flatMap, List.mem_map] at hmem
    simp [Task.join, Task.spawn] at hmem
    obtain ⟨x, -, hx⟩ := hmem
    cases x <;> simp [Finding.noting, Mark.noting] at hx

end SweepCourse

end CertSteward
