import CertSteward.Proofs.Renewal.Workers

/-!
# What a sweep leaves

The renewals of a sweep save into one store while the sweep still runs, each whenever it gets to it.
What there is in the end does not depend on that: every save is under the name of its own record, no
record is both renewed and marked as expired, and the sweep has read all of them before anything was
saved. So of each record what is left can be told from what came of its own renewal, and of the
counts it can be told from all of these.

## Main definitions

* `Weave.resultOf` — what came of the renewal of a record
* `CertificateRecord.swept` — what a sweep leaves of a record
* `Sweeping.Accounts` — reports that account for everything

## Main results

* `Sweeping.listed` — nobody has saved anything when the sweep reads the store
* `Sweeping.store_after` — the store after a sweep
* `Sweeping.accounts` — the report of a sweep
* `Sweeping.sweep_accounts_for_all` — both are the same in whatever order renewals are at work
-/

namespace CertSteward

open Steward

variable {p : RenewalPractice} {q : Nat} {r : CertificateRecord} {task : RenewalTask}

/-! ### Results of renewals -/

/-- Whether a job renews a record in a sweep. -/
def Job.renews (r : CertificateRecord) : Job → Bool
  | .renewDue _ task => task.record == r
  | _ => false

namespace Weave

variable {β : Type}

/-- What came of the renewal of a record: its outcome, and the record that it saved. -/
def resultOf (w : Weave β) (r : CertificateRecord) :
    Option (RenewalOutcome × Option CertificateRecord) := do
  let i ← w.strands.findIdx? fun s => s.job.any (·.renews r)
  let o ← w.outcome? i
  return (dueOutcome o, (w.path i).findSome? (·.1.saved?))

/-- What the clock showed to the sweep. -/
def clocks (w : Weave β) : List Instant := (w.path 0).filterMap fun e => e.1.clock? e.2

end Weave

/-- What a sweep at `now` leaves of a record: if it was due, what its renewal saved, and if it had run
out, a record with that status, noted at `clock`. -/
def CertificateRecord.swept (r : CertificateRecord) (window : RenewalWindow) (now clock : Instant)
    (saved : Option CertificateRecord) : CertificateRecord :=
  if r.isDue? window now = some true then saved.getD r
  else if r.runsOut now then { r with status := .expired, updatedAt := r.updatedAt.max clock }
  else r

/-- What is due has not run out unasked. -/
theorem CertificateRecord.not_isDue_of_runsOut {window : RenewalWindow} {now : Instant}
    (h : r.runsOut now = true) : r.isDue? window now ≠ some true := by
  have hauto : r.autoRenew = false := by
    rw [runsOut_eq] at h
    simpa using (Bool.and_eq_true_iff.mp h).1
  rw [isDue?, hauto, if_neg (by simp)]
  intro hdue
  cases hdue

/-- What has run out is marked as expired. -/
theorem CertificateRecord.markExpiredIfDue_of_runsOut {now clock : Instant}
    (h : r.runsOut now = true) : r.markExpiredIfDue now clock =
      { r with status := .expired, updatedAt := r.updatedAt.max clock } := by
  rw [runsOut_eq] at h
  rw [markExpiredIfDue, if_pos (Bool.and_eq_true_iff.mp h).2]
  rfl

theorem CertificateRecord.id_markExpiredIfDue {now clock : Instant} :
    (r.markExpiredIfDue now clock).id = r.id := by
  unfold markExpiredIfDue
  split <;> rfl

/-- The records of the tasks are those that are due. -/
theorem SweepCourse.mem_due {c : SweepCourse p} :
    r ∈ c.tasks.map (·.record) ↔ r ∈ c.listed ∧ r.isDue? p.window c.now = some true := by
  rw [eq_filter_of_selectDue? c.due, List.mem_filter, beq_iff_eq]

/-- When a record was marked. -/
theorem SweepCourse.exists_clock {c : SweepCourse p} (nodup : c.listed.Nodup) :
    ∃ clock : CertificateRecord → Instant, ∀ m ∈ c.marks, clock m.record = m.clock := by
  have hmarks : (c.marks.map (·.record)).Nodup := by
    rw [c.marked]
    exact nodup.filter _
  refine ⟨fun r => ((c.marks.find? fun m => m.record == r).map (·.clock)).getD default, fun m hm => ?_⟩
  cases hfind : c.marks.find? fun x => x.record == m.record with
  | none => exact absurd (beq_self_eq_true _) (List.find?_eq_none.mp hfind m hm)
  | some m' =>
    have hrecord := List.find?_some hfind
    have hrecord : m'.record = m.record := eq_of_beq hrecord
    obtain rfl := List.inj_on_of_nodup_map hmarks (List.mem_of_find?_eq_some hfind) hm hrecord
    show ((c.marks.find? fun x => x.record == m'.record).map (·.clock)).getD default = m'.clock
    rw [hfind]
    rfl

/-- The records of the marks are those that have run out. -/
theorem SweepCourse.mem_marked {c : SweepCourse p} :
    r ∈ c.marks.map (·.record) ↔ r ∈ c.listed ∧ r.runsOut c.now = true := by
  rw [c.marked, List.mem_filter]

namespace Sweeping

variable {w : Weave (Except StoreError SweepReport)} {i : Nat}
variable {t : Strand (Except StoreError SweepReport)}

/-- The sweep is the first strand. -/
theorem here_zero (h : Sweeping p w) : ∃ t, w.strands[0]? = some t ∧ t.owner = none := by
  unfold Sweeping at h
  induction h with
  | refl => exact ⟨_, rfl, rfl⟩
  | step _ hstep ih =>
    obtain ⟨t, here, howner⟩ := ih
    obtain ⟨t', here', -, howner', -⟩ := hstep.turn.same here
    exact ⟨t', here', howner'.trans howner⟩

/-- A sweep that has returned something went all the way. -/
theorem afterSweep (h : Sweeping p w) {result : Except StoreError SweepReport}
    (hresult : w.returned 0 = some result) : AfterSweep p (w.path 0) result := by
  obtain ⟨t, here, howner⟩ := h.here_zero
  obtain ⟨program, b, d, hprogram, hb, hends⟩ := Weave.ends_of_returned h hresult here
  obtain rfl := hb howner
  obtain rfl : sweep p = program := by
    cases hrun : t.run with
    | zero =>
      rw [hrun] at hprogram
      exact Option.some.inj hprogram
    | succ n =>
      rw [hrun] at hprogram
      cases hprogram
  exact ends_sweep hends

/-- A sweep with a report looked at all records. -/
theorem course (h : Sweeping p w) {report : SweepReport} (hreport : w.returned 0 = some (.ok report)) :
    ∃ c : SweepCourse p, w.path 0 = c.happenings ∧ report = c.report := by
  have hafter := h.afterSweep hreport
  generalize w.path 0 = path, hresult : (Except.ok report : Except StoreError _) = result at hafter
  cases hafter with
  | failed => cases hresult
  | swept c =>
    cases hresult
    exact ⟨c, rfl, rfl⟩

/-- What the sweep was told, it was told after the other things that are on its path before. -/
theorem earlier (h : Sweeping p w) {a : Act} {answer : a.Answer} (he : ⟨a, answer⟩ ∈ w.path 0) :
    ∃ (u : Weave (Except StoreError SweepReport)) (run : Nat) (log : List Event)
      (path : List Happening), Sweeping p u ∧ w.log = u.log ++ ⟨0, run, a, answer⟩ :: log ∧
        w.path 0 = u.path 0 ++ ⟨a, answer⟩ :: path := by
  obtain ⟨run, he⟩ := Weave.mem_path.mp he
  obtain ⟨before, after, hlog⟩ := List.append_of_mem he
  obtain ⟨u, -, -, hu, rfl, -⟩ := Weave.Leads.event h (fun _ _ => Weave.Stride.turn) rfl hlog
  refine ⟨u, run, after, (after.filter (·.strand == 0)).map fun e => ⟨e.act, e.answer⟩, hu, hlog, ?_⟩
  rw [Weave.path, hlog, List.filter_append, List.map_append]
  rfl

variable {c : SweepCourse p}

/-- A task of a sweep went all the way, and came to what the sweep was told. -/
theorem ends_task (h : Sweeping p w) (hc : w.path 0 = c.happenings) {x : Task} (hx : x ∈ c.tasks) :
    ∃ t d o, w.strands[x.strand]? = some t ∧ t.job = some (.renewDue c.permits x.toRenewalTask) ∧
      w.outcome? x.strand = some x.outcome ∧ x.outcome = .due o ∧
      Steward.Ends false (renewDue p c.permits x.toRenewalTask) (w.path x.strand) d o := by
  have hspawn : ⟨.spawn (.renewDue c.permits x.toRenewalTask), x.strand⟩ ∈ w.path 0 :=
    hc ▸ c.spawn_mem hx
  have hjoin : ⟨.wait (.join x.strand), some x.outcome⟩ ∈ w.path 0 := hc ▸ c.join_mem hx
  obtain ⟨t, here, hjob, howner⟩ := Weave.here_of_spawn h hspawn
  have houtcome := Weave.outcome?_of_join h hjoin
  obtain ⟨j, b, d, hj, hb, hends⟩ := Weave.ends_of_outcome? h houtcome here
  obtain rfl := Option.some.inj (hjob.symm.trans hj)
  obtain rfl := hb howner
  obtain ⟨o, hends, ho⟩ := ends_map_iff.mp hends
  exact ⟨t, d, o, here, hjob, houtcome, ho, hends⟩

theorem afterDue (h : Sweeping p w) (hc : w.path 0 = c.happenings) {x : Task} (hx : x ∈ c.tasks) :
    ∃ t saved, w.strands[x.strand]? = some t ∧ t.job = some (.renewDue c.permits x.toRenewalTask) ∧
      w.outcome? x.strand = some x.outcome ∧
      AfterDue p c.permits x.record (w.path x.strand) x.result saved := by
  obtain ⟨t, d, o, here, hjob, houtcome, ho, hends⟩ := h.ends_task hc hx
  obtain ⟨saved, hdue⟩ := ends_renewDue hends
  refine ⟨t, saved, here, hjob, houtcome, ?_⟩
  rw [Task.result, ho]
  exact hdue

/-- Renewals are those of the tasks. -/
theorem task_of_job (h : Sweeping p w) (hc : w.path 0 = c.happenings) (here : w.strands[i]? = some t)
    (hjob : t.job = some (.renewDue q task)) :
    ∃ x ∈ c.tasks, x.strand = i ∧ x.toRenewalTask = task := by
  obtain ⟨k, hspawn⟩ := Weave.spawned_of_strides h here hjob (h.made here hjob).1
  obtain ⟨run, he⟩ := Weave.mem_path.mp hspawn
  obtain ⟨t', here', ⟨_, _, _, hother⟩ | ⟨hmain, -⟩⟩ := h.asked he
  · cases hother
  · obtain rfl := h.eq_zero_of_job here' hmain
    rw [hc] at hspawn
    obtain ⟨x, hx, heq, rfl⟩ := c.of_spawn_mem hspawn
    cases heq
    exact ⟨x, hx, rfl, rfl⟩

/-- What is known of a task from the record and the strand. -/
theorem resultOf (h : Sweeping p w) (hc : w.path 0 = c.happenings)
    (nodup : (c.tasks.map (·.record)).Nodup) {x : Task} (hx : x ∈ c.tasks) :
    ∃ saved, w.resultOf x.record = some (x.result, saved) ∧
      AfterDue p c.permits x.record (w.path x.strand) x.result saved := by
  obtain ⟨t, saved, here, hjob, houtcome, hdue⟩ := h.afterDue hc hx
  refine ⟨saved, ?_, hdue⟩
  have hfind : w.strands.findIdx? (fun s => s.job.any (·.renews x.record)) = some x.strand := by
    cases hi : w.strands.findIdx? fun s => s.job.any (·.renews x.record) with
    | none =>
      have hno := List.findIdx?_eq_none_iff.mp hi t (List.mem_of_getElem? here)
      simp [hjob, Job.renews] at hno
    | some i =>
      obtain ⟨hlt, hrenews, -⟩ := List.findIdx?_eq_some_iff_getElem.mp hi
      obtain ⟨j, hj, hrenews⟩ := (Option.any_eq_true _ _).mp hrenews
      cases j with
      | renewDue q task =>
        obtain ⟨y, hy, rfl, rfl⟩ := h.task_of_job hc (List.getElem?_eq_getElem hlt) hj
        rw [List.inj_on_of_nodup_map nodup hy hx (eq_of_beq hrenews)]
      | _ => cases hrenews
  have hsaved : (w.path x.strand).findSome? (·.1.saved?) = saved := by
    rw [← List.head?_filterMap, hdue.saved]
    cases saved <;> rfl
  rw [Weave.resultOf, hfind]
  simp only [Option.bind_eq_bind, Option.bind_some, houtcome, hsaved]
  rfl

/-- Nothing is removed from the store. -/
theorem keeps_records (h : Sweeping p w) {e : Event} (he : e ∈ w.log) (id : String) :
    e.act ≠ .records (.delete id) := by
  intro hid
  obtain ⟨t, -, hsuits⟩ := h.asked he
  rw [hid] at hsuits
  exact hsuits

/-- Records are saved by the sweep, which marks them, and by renewals. -/
theorem saved_cases (h : Sweeping p w) {e : Event} (he : e ∈ w.log) {s : CertificateRecord}
    (hs : e.act.saved? = some s) : s ∈ (w.path 0).filterMap (·.1.saved?) ∨
      ∃ i t q task, w.strands[i]? = some t ∧ t.job = some (.renewDue q task) ∧
        s ∈ (w.path i).filterMap (·.1.saved?) := by
  obtain ⟨i, run, a, answer⟩ := e
  have hmem : s ∈ (w.path i).filterMap (·.1.saved?) :=
    List.mem_filterMap.mpr ⟨⟨a, answer⟩, Weave.mem_path.mpr ⟨run, he⟩, hs⟩
  obtain ⟨t, here, hsuits⟩ := h.asked he
  obtain rfl : a = .records (.save s) := Act.eq_of_saved? hs
  obtain hmain | ⟨q, task, hjob⟩ := hsuits
  · obtain rfl := h.eq_zero_of_job here hmain
    exact .inl hmem
  · exact .inr ⟨i, t, q, task, here, hjob, hmem⟩

/-- **Nobody has saved anything when the sweep reads the store.** -/
theorem listed (h : Sweeping p w) (hc : w.path 0 = c.happenings) {m m' : MemoryStore}
    (hm : m.After w.log m') : c.listed = CertificateRecord.byAge m.records := by
  have hmem : ⟨.records .list, .ok c.listed⟩ ∈ w.path 0 := by
    rw [hc]
    exact List.mem_cons_of_mem _ (List.mem_cons_of_mem _ List.mem_cons_self)
  obtain ⟨u, run, log, path, hu, hlog, hpath⟩ := h.earlier hmem
  have hbefore := c.before_list (hc.symm.trans hpath)
  have hnone : ∀ e ∈ u.log, e.act.saved? = none := by
    intro e he
    rw [Option.eq_none_iff_forall_ne_some]
    intro s hs
    obtain hmain | ⟨i, t, q, task, here, hjob, -⟩ := hu.saved_cases he hs
    · rw [hbefore] at hmain
      cases hmain
    · have hnew := hu.newPermits_of_made? (hu.made here hjob).2
      rw [hbefore] at hnew
      simp at hnew
  rw [hlog] at hm
  obtain ⟨m₀, hpre, hpost⟩ := MemoryStore.after_append.mp hm
  have hsame := hpre.eq_foldl (fun e he => Event.failsToSave_of_saved? (hnone e he))
    fun e he => hu.keeps_records he
  rw [List.filterMap_eq_nil_iff.mpr hnone] at hsame
  obtain rfl : m₀ = m := hsame
  cases hpost with
  | other differs => exact absurd rfl (differs _)
  | served serves =>
    generalize hreply : (Except.ok c.listed : Except StoreError _) = reply at serves
    cases serves with
    | failed fault =>
      subst hreply
      cases fault
    | done answers =>
      cases answers
      exact Except.ok.inj hreply

/-! ### The store after a sweep -/

section

variable {clock : CertificateRecord → Instant}

/-- What a sweep leaves of a record. -/
def left (w : Weave (Except StoreError SweepReport)) (p : RenewalPractice) (now : Instant)
    (clock : CertificateRecord → Instant) (r : CertificateRecord) : CertificateRecord :=
  r.swept p.window now (clock r) ((w.resultOf r).bind (·.2))

theorem left_of_task (h : Sweeping p w) (hc : w.path 0 = c.happenings)
    (nodup : (c.tasks.map (·.record)).Nodup) {x : Task} (hx : x ∈ c.tasks) :
    ∃ saved : Option CertificateRecord, left w p c.now clock x.record = saved.getD x.record ∧
      (∀ s ∈ saved, s.id = x.record.id) ∧
      (w.path x.strand).filterMap (·.1.saved?) = saved.toList := by
  obtain ⟨saved, hresult, hdue⟩ := h.resultOf hc nodup hx
  refine ⟨saved, ?_, hdue.id.1, hdue.saved⟩
  have hisDue := (c.mem_due.mp (List.mem_map_of_mem hx)).2
  rw [left, CertificateRecord.swept, if_pos hisDue, hresult]
  rfl

/-- What is left of a record that has run out says so, and is otherwise as it was. -/
theorem left_of_runsOut {now : Instant} (hruns : r.runsOut now = true) : left w p now clock r =
    { r with status := .expired, updatedAt := r.updatedAt.max (clock r) } := by
  rw [left, CertificateRecord.swept, if_neg (CertificateRecord.not_isDue_of_runsOut hruns),
    if_pos hruns]

theorem left_of_mark {m : Mark} (hm : m ∈ c.marks) (hclock : clock m.record = m.clock) :
    left w p c.now clock m.record = m.marked c.now := by
  have hruns := (c.mem_marked.mp (List.mem_map_of_mem hm)).2
  rw [left_of_runsOut hruns, hclock, Mark.marked,
    CertificateRecord.markExpiredIfDue_of_runsOut hruns]

/-- What is saved is what is left of a record, which has its name. -/
theorem left_of_saved (h : Sweeping p w) (hc : w.path 0 = c.happenings)
    (nodup : (c.tasks.map (·.record)).Nodup) (hclock : ∀ m ∈ c.marks, clock m.record = m.clock)
    {s : CertificateRecord} (hs : s ∈ w.log.filterMap (·.act.saved?)) :
    ∃ r ∈ c.listed, s.id = r.id ∧ s = left w p c.now clock r := by
  obtain ⟨e, he, hs⟩ := List.mem_filterMap.mp hs
  obtain hmain | ⟨i, t, q, task, here, hjob, hs⟩ := h.saved_cases he hs
  · rw [hc, c.saved] at hmain
    obtain ⟨m, hm, rfl⟩ := List.mem_map.mp hmain
    exact ⟨m.record, (c.mem_marked.mp (List.mem_map_of_mem hm)).1, CertificateRecord.id_markExpiredIfDue,
      (left_of_mark hm (hclock m hm)).symm⟩
  · obtain ⟨x, hx, rfl, rfl⟩ := h.task_of_job hc here hjob
    obtain ⟨saved, hleft, hid, hpath⟩ := h.left_of_task hc nodup hx
    rw [hpath] at hs
    obtain rfl := Option.mem_toList.mp hs
    exact ⟨x.record, (c.mem_due.mp (List.mem_map_of_mem hx)).1, hid s rfl, hleft.symm⟩

/-- What is left of a record is the record itself, or is saved under its name. -/
theorem left_cases (h : Sweeping p w) (hc : w.path 0 = c.happenings)
    (nodup : (c.tasks.map (·.record)).Nodup) (hclock : ∀ m ∈ c.marks, clock m.record = m.clock)
    (hr : r ∈ c.listed) : left w p c.now clock r = r ∨ (left w p c.now clock r).id = r.id ∧
      left w p c.now clock r ∈ w.log.filterMap (·.act.saved?) := by
  have hlog : ∀ {i : Nat} {s : CertificateRecord}, s ∈ (w.path i).filterMap (·.1.saved?) →
      s ∈ w.log.filterMap (·.act.saved?) := by
    intro i s hs
    obtain ⟨⟨a, answer⟩, he, hs⟩ := List.mem_filterMap.mp hs
    obtain ⟨run, he⟩ := Weave.mem_path.mp he
    exact List.mem_filterMap.mpr ⟨_, he, hs⟩
  by_cases hdue : r.isDue? p.window c.now = some true
  · obtain ⟨x, hx, rfl⟩ := List.mem_map.mp (c.mem_due.mpr ⟨hr, hdue⟩)
    obtain ⟨saved, hleft, hid, hpath⟩ := h.left_of_task hc nodup hx
    rw [hleft]
    cases saved with
    | none => exact .inl rfl
    | some s =>
      refine .inr ⟨hid s rfl, hlog (i := x.strand) ?_⟩
      rw [hpath]
      exact List.mem_singleton.mpr rfl
  by_cases hruns : r.runsOut c.now = true
  · obtain ⟨m, hm, rfl⟩ := List.mem_map.mp (c.mem_marked.mpr ⟨hr, hruns⟩)
    rw [left_of_mark hm (hclock m hm)]
    refine .inr ⟨CertificateRecord.id_markExpiredIfDue, hlog (i := 0) ?_⟩
    rw [hc, c.saved]
    exact List.mem_map_of_mem hm
  · refine .inl ?_
    rw [left, CertificateRecord.swept, if_neg hdue, if_neg hruns]

/-- No record is listed twice. -/
theorem nodup_listed (h : Sweeping p w) (hc : w.path 0 = c.happenings) {m m' : MemoryStore}
    (ids : (m.records.map (·.id)).Nodup) (hm : m.After w.log m') : c.listed.Nodup := by
  rw [h.listed hc hm]
  exact (List.mergeSort_perm m.records _).nodup_iff.mpr ids.of_map

/-- No record is due twice. -/
theorem nodup_due (h : Sweeping p w) (hc : w.path 0 = c.happenings) {m m' : MemoryStore}
    (ids : (m.records.map (·.id)).Nodup) (hm : m.After w.log m') :
    (c.tasks.map (·.record)).Nodup := by
  rw [eq_filter_of_selectDue? c.due]
  exact (h.nodup_listed hc ids hm).filter _

/-- **The store after a sweep.** -/
theorem store_after (h : Sweeping p w) (hc : w.path 0 = c.happenings)
    (hclock : ∀ m ∈ c.marks, clock m.record = m.clock) {m m' : MemoryStore}
    (ids : (m.records.map (·.id)).Nodup) (hm : m.After w.log m')
    (saves : ∀ e ∈ w.log, e.failsToSave = false) :
    m' = { m with records := m.records.map (left w p c.now clock) } := by
  have hlisted := h.listed hc hm
  have hmem : ∀ {r}, r ∈ c.listed ↔ r ∈ m.records := fun {r} => by
    rw [hlisted, CertificateRecord.mem_byAge]
  have hinj := List.inj_on_of_nodup_map ids
  have nodup := h.nodup_due hc ids hm
  have hsaved := fun s => h.left_of_saved (s := s) hc nodup hclock
  rw [hm.eq_foldl saves fun e he => h.keeps_records he, MemoryStore.foldl_save ids]
  · refine congrArg (fun l => { m with records := l }) (List.map_congr_left fun r hr => ?_)
    rw [CertificateRecord.latest]
    cases hfind : (w.log.filterMap (·.act.saved?)).find? fun s => s.id == r.id with
    | some s =>
      obtain ⟨r', hr', hid', hleft'⟩ := hsaved s (List.mem_of_find?_eq_some hfind)
      have hid := List.find?_some hfind
      have hid : s.id = r.id := eq_of_beq hid
      rw [Option.getD_some, hleft', hinj (hmem.mp hr') hr (hid'.symm.trans hid)]
    | none =>
      obtain hsame | ⟨hid, hin⟩ := h.left_cases hc nodup hclock (hmem.mpr hr)
      · exact hsame.symm
      · exact absurd (beq_iff_eq.mpr hid) (List.find?_eq_none.mp hfind _ hin)
  · intro s hs
    obtain ⟨r, hr, hid, -⟩ := hsaved s hs
    rw [hid]
    exact List.mem_map_of_mem (hmem.mp hr)
  · intro s hs s' hs' heq
    obtain ⟨r, hr, hid, hleft⟩ := hsaved s hs
    obtain ⟨r', hr', hid', hleft'⟩ := hsaved s' hs'
    rw [hleft, hleft', hinj (hmem.mp hr) (hmem.mp hr') ((hid.symm.trans heq).trans hid')]

end

/-! ### The report -/

/-- A report accounts for everything: of the records `rs` exactly those that are due were renewed,
each of them came to one of the outcomes that are counted, and what had run out was marked. -/
structure Accounts (w : Weave (Except StoreError SweepReport)) (p : RenewalPractice)
    (rs : List CertificateRecord) (now : Instant) (due : List CertificateRecord)
    (report : SweepReport) : Prop where
  selects : selectDue? (CertificateRecord.byAge rs) p.window now = some due
  renews : (w.path 0).filterMap (·.1.renewed?) = due
  scanned : report.scanned = rs.length
  selected : report.selected = due.length
  results : ∀ r ∈ due, ∃ i q outcome saved, AfterDue p q r (w.path i) outcome saved ∧
    w.resultOf r = some (outcome, saved)
  outcomes : report.outcomes.map some = due.map fun r => (w.resultOf r).map (·.1)
  counts : report.count .renewed + report.count .failed + report.count .transient +
    report.count .skipped + report.count .cancelled = report.selected
  expired : report.expired = (rs.filter (·.runsOut now)).length

theorem sum_count (l : List RenewalOutcome) : l.count .renewed + l.count .failed +
    l.count .transient + l.count .skipped + l.count .cancelled = l.length := by
  induction l with
  | nil => rfl
  | cons o l ih =>
    rw [List.length_cons, ← ih]
    cases o <;> simp only [List.count_cons_self, List.count_cons_of_ne, ne_eq, reduceCtorEq,
      not_false_eq_true] <;> omega

/-- **The report of a sweep accounts for everything.** -/
theorem accounts (h : Sweeping p w) (hc : w.path 0 = c.happenings) {m m' : MemoryStore}
    (ids : (m.records.map (·.id)).Nodup) (hm : m.After w.log m') :
    Accounts w p m.records c.now (c.tasks.map (·.record)) c.report := by
  have hlisted := h.listed hc hm
  have hperm : c.listed.Perm m.records := hlisted ▸ List.mergeSort_perm m.records _
  have nodup := h.nodup_due hc ids hm
  refine ⟨hlisted ▸ c.due, hc ▸ c.started_eq, hperm.length_eq, (List.length_map _).symm, ?_, ?_, ?_, ?_⟩
  · intro r hr
    obtain ⟨x, hx, rfl⟩ := List.mem_map.mp hr
    obtain ⟨saved, hresult, hdue⟩ := h.resultOf hc nodup hx
    exact ⟨x.strand, c.permits, x.result, saved, hdue, hresult⟩
  · rw [SweepCourse.report, List.map_map, List.map_map]
    refine List.map_congr_left fun x hx => ?_
    obtain ⟨saved, hresult, -⟩ := h.resultOf hc nodup hx
    exact (congrArg (Option.map (·.1)) hresult).symm
  · exact (sum_count _).trans (List.length_map _)
  · have hlen := congrArg List.length c.marked
    rw [List.length_map] at hlen
    exact hlen.trans (hperm.filter _).length_eq

theorem clocks_eq {clock : CertificateRecord → Instant} (hc : w.path 0 = c.happenings)
    (hclock : ∀ m ∈ c.marks, clock m.record = m.clock) :
    w.clocks = c.now :: (c.listed.filter (·.runsOut c.now)).map clock := by
  rw [Weave.clocks, hc, c.clocks, ← c.marked, List.map_map]
  exact congrArg (c.now :: ·) (List.map_congr_left fun m hm => (hclock m hm).symm)

/-! ### Orders -/

section

variable {u : Weave (Except StoreError SweepReport)} {rs due : List CertificateRecord} {now : Instant}

/-- Renewals that come to the same are accounted for in the same way. -/
theorem Accounts.eq {a b : SweepReport} (ha : Accounts w p rs now due a)
    (hb : Accounts u p rs now due b) (results : ∀ r ∈ due, u.resultOf r = w.resultOf r) :
    b = { a with duration := b.duration } := by
  have houtcomes : b.outcomes = a.outcomes := by
    refine List.map_injective_iff.mpr (fun _ _ => Option.some.inj) ?_
    rw [ha.outcomes, hb.outcomes]
    exact List.map_congr_left fun r hr => by rw [results r hr]
  have hscanned := hb.scanned.trans ha.scanned.symm
  have hselected := hb.selected.trans ha.selected.symm
  have hexpired := hb.expired.trans ha.expired.symm
  cases a
  cases b
  cases houtcomes
  cases hscanned
  cases hselected
  cases hexpired
  rfl

/-- Renewals that come to the same leave the same. -/
theorem left_congr {clock clock' : CertificateRecord → Instant}
    (results : r.isDue? p.window now = some true → u.resultOf r = w.resultOf r)
    (clocks : r.runsOut now = true → clock' r = clock r) :
    left u p now clock' r = left w p now clock r := by
  unfold left CertificateRecord.swept
  split
  · rename_i hdue
    rw [results hdue]
  split
  · rename_i hruns
    rw [clocks hruns]
  · rfl

end

/-- **What a sweep comes to does not depend on who was when at work.** -/
theorem sweep_accounts_for_all (h : Sweeping p w) :
    (∀ l : List Nat, l.Nodup → (∀ i ∈ l, w.AtWork i) → l.length ≤ max p.workers 1) ∧
    ∀ (report : SweepReport) (m m' : MemoryStore), w.returned 0 = some (.ok report) →
      (m.records.map (·.id)).Nodup → m.After w.log m' → ∃ now due clock,
        w.clocks = now :: ((CertificateRecord.byAge m.records).filter (·.runsOut now)).map clock ∧
        Accounts w p m.records now due report ∧
        ((∀ e ∈ w.log, e.failsToSave = false) →
          m' = { m with records := m.records.map (left w p now clock) } ∧
          (∀ r ∈ m.records, r.status = .issued → r.autoRenew = false →
            (∃ e, r.expiresAt = some e ∧ e ≤ now) → left w p now clock r =
              { r with status := .expired, updatedAt := r.updatedAt.max (clock r) }) ∧
          ∀ (u : Weave (Except StoreError SweepReport)) (report' : SweepReport) (m'' : MemoryStore),
            Sweeping p u → u.returned 0 = some (.ok report') → m.After u.log m'' →
            (∀ e ∈ u.log, e.failsToSave = false) → u.clocks = w.clocks →
            (∀ r ∈ due, u.resultOf r = w.resultOf r) →
            m'' = m' ∧ report' = { report with duration := report'.duration }) := by
  refine ⟨fun l nodup hl => h.atWork_le nodup hl, fun report m m' hreport ids hm => ?_⟩
  obtain ⟨c, hc, rfl⟩ := h.course hreport
  obtain ⟨clock, hclock⟩ := SweepCourse.exists_clock (h.nodup_listed hc ids hm)
  have hlisted := h.listed hc hm
  have hclocks := clocks_eq hc hclock
  rw [hlisted] at hclocks
  have hreckon := h.accounts hc ids hm
  refine ⟨c.now, _, clock, hclocks, hreckon, fun saves => ?_⟩
  have hstore := h.store_after hc hclock ids hm saves
  refine ⟨hstore, fun r _ hstatus hauto ⟨e, hexpires, hover⟩ => left_of_runsOut ?_,
    fun u report' m'' hu hreport' hm' saves' hsame results => ?_⟩
  · simp [CertificateRecord.runsOut, hstatus, hauto, hexpires, hover]
  obtain ⟨d, hd, rfl⟩ := hu.course hreport'
  obtain ⟨clock', hclock'⟩ := SweepCourse.exists_clock (hu.nodup_listed hd ids hm')
  have hlisted' := hu.listed hd hm'
  have hclocks' := clocks_eq hd hclock'
  rw [hlisted', hsame, hclocks] at hclocks'
  obtain ⟨hnow, hmarks⟩ := List.cons.inj hclocks'
  have hreckon' := hu.accounts hd ids hm'
  have hstore' := hu.store_after hd hclock' ids hm' saves'
  rw [← hnow] at hreckon' hstore' hmarks
  have hdue : d.tasks.map (·.record) = c.tasks.map (·.record) :=
    Option.some.inj (hreckon'.selects.symm.trans hreckon.selects)
  rw [hdue] at hreckon'
  refine ⟨?_, hreckon.eq hreckon' results⟩
  rw [hstore, hstore']
  refine congrArg (fun l => { m with records := l }) (List.map_congr_left fun r hr => ?_)
  have hr : r ∈ c.listed := by
    rw [hlisted, CertificateRecord.mem_byAge]
    exact hr
  refine left_congr (fun hdue => results r (c.mem_due.mpr ⟨hr, hdue⟩)) fun hruns => ?_
  exact (List.map_inj_left.mp hmarks r (List.mem_filter.mpr ⟨hlisted ▸ hr, hruns⟩)).symm

/-! ### One sweep in two orders -/

/-- A record that is due. -/
def sampleDue : CertificateRecord := { sampleIssued with expiresAt := some { seconds := 20 } }

/-- Another record that is due. -/
def sampleLate : CertificateRecord :=
  { sampleDue with id := "cert_2", primaryDomain := "example.org" }

/-- A record that has run out and is not renewed unasked. -/
def sampleOver : CertificateRecord :=
  { sampleDue with id := "cert_3", autoRenew := false, expiresAt := some { seconds := 5 } }

def sampleStore : MemoryStore := { records := [sampleDue, sampleLate, sampleOver] }

theorem byAge_sampleStore :
    CertificateRecord.byAge sampleStore.records = [sampleDue, sampleLate, sampleOver] :=
  List.mergeSort_of_pairwise (by decide)

theorem selectDue?_sample : selectDue? [sampleDue, sampleLate, sampleOver] {} { seconds := 10 } =
    some [sampleDue, sampleLate] := by
  decide

/-- A sweep with one worker. -/
def samplePractice : RenewalPractice := { workers := 0 }

/-- An authority that rejects one order and has lost the other. -/
def sweepAnswers : (a : Act) → Option a.Answer
  | .now | .attempts _ => some (0 : Nat)
  | .wallClock => some { seconds := 10 }
  | .freshKey _ => some (.ok { spec := .ecdsaP256, secret := [] })
  | .authority .ensureAccount => some (.ok (), (0 : Nat))
  | .authority (.newOrder names) => some (.error (if names = ["example.com"] then
      .rejected "order" "blocked" else .unknownOrder "1"), (0 : Nat))
  | .records .list => some (.ok [sampleDue, sampleLate, sampleOver])
  | .records (.save _) => some (.ok ())
  | .watch => some true
  | .isCancelled => some false
  | .unwatch | .note _ | .setAttempts .. | .givePermit _ => some ()
  | _ => none

/-- The sweep, when strands go on in the given order. -/
def sampleRun (order : List Nat) : Option (Weave (Except StoreError SweepReport)) :=
  order.foldlM (Weave.play samplePractice.program sweepAnswers) (Weave.start [sweep samplePractice])

/-- The first renewal is at work before the second. -/
def firstOrder : List Nat :=
  List.replicate 12 0 ++ List.replicate 35 1 ++ List.replicate 3 0 ++ List.replicate 35 2 ++
    List.replicate 5 0

/-- The first renewal waits until the second has given its permit back. -/
def otherOrder : List Nat :=
  List.replicate 12 0 ++ List.replicate 3 2 ++ List.replicate 2 1 ++ List.replicate 32 2 ++
    List.replicate 33 1 ++ List.replicate 8 0

/-- What the sweep leaves. -/
def sampleLeft : MemoryStore where
  records := [sampleDue.failedWith
      (.failed "example.com" .accountReady (.rejected "order" "blocked")) { seconds := 10 },
    sampleLate, { sampleOver with status := .expired, updatedAt := { seconds := 10 } }]

def sampleReport : SweepReport where
  scanned := 3
  selected := 2
  outcomes := [.failed, .transient]
  expired := 1
  duration := (0 : Nat)

/-- What is to be known of a run. -/
structure SampleFacts (w : Weave (Except StoreError SweepReport)) : Prop where
  returned : w.returned 0 = some (.ok sampleReport)
  saves : w.log.any (·.failsToSave) = false
  clocks : w.clocks = [{ seconds := 10 }, { seconds := 10 }]
  due : w.resultOf sampleDue = some (.failed, sampleLeft.records.head?)
  late : w.resultOf sampleLate = some (.transient, none)
  reads : w.log.take 3 = [⟨0, 0, .now, (0 : Nat)⟩, ⟨0, 0, .wallClock, { seconds := 10 }⟩,
    ⟨0, 0, .records .list, .ok [sampleDue, sampleLate, sampleOver]⟩]
  store : MemoryStore.follow sampleStore (w.log.drop 3) = some sampleLeft

theorem sampleRun_firstOrder : ∃ w, sampleRun firstOrder = some w ∧ SampleFacts w :=
  ⟨_, rfl, by constructor <;> rfl⟩

theorem sampleRun_otherOrder : ∃ w, sampleRun otherOrder = some w ∧ SampleFacts w :=
  ⟨_, rfl, by constructor <;> rfl⟩

theorem SampleFacts.after (hw : SampleFacts w) : sampleStore.After w.log sampleLeft := by
  have hlist : (RecordStore.memory sampleStore).answer .list =
      (.ok [sampleDue, sampleLate, sampleOver], .memory sampleStore) := by
    rw [← byAge_sampleStore]
    rfl
  have hrest := MemoryStore.after_of_follow hw.store
  rw [← List.take_append_drop 3 w.log, hw.reads]
  exact .other (by simp) (.other (by simp) (.served (.done hlist) hrest))

theorem SampleFacts.saved (hw : SampleFacts w) : ∀ e ∈ w.log, e.failsToSave = false := by
  simpa using hw.saves

/-- Whichever renewal is at work first, one record is replaced by its failure, one is left alone and
one is marked as expired. -/
theorem sweep_accounts_for_all_orders : ∃ w u, sampleRun firstOrder = some w ∧
    sampleRun otherOrder = some u ∧ Sweeping samplePractice w ∧ Sweeping samplePractice u ∧
    w.returned 0 = some (.ok sampleReport) ∧ sampleStore.After w.log sampleLeft ∧
    Accounts w samplePractice sampleStore.records { seconds := 10 } [sampleDue, sampleLate]
      sampleReport ∧
    ∀ m, sampleStore.After u.log m → m = sampleLeft := by
  obtain ⟨w, hw, hfacts⟩ := sampleRun_firstOrder
  obtain ⟨u, hu, hfacts'⟩ := sampleRun_otherOrder
  have hsweep : Sweeping samplePractice w := Weave.strides_of_play hw
  have hsweep' : Sweeping samplePractice u := Weave.strides_of_play hu
  obtain ⟨now, due, clock, hclocks, haccounts, hstore⟩ := (sweep_accounts_for_all hsweep).2
    sampleReport sampleStore sampleLeft hfacts.returned (by decide) hfacts.after
  have hnow : { seconds := 10 } = now := (List.cons.inj (hfacts.clocks.symm.trans hclocks)).1
  subst hnow
  have hdue : [sampleDue, sampleLate] = due := by
    have hselects := haccounts.selects
    rw [byAge_sampleStore] at hselects
    exact Option.some.inj (selectDue?_sample.symm.trans hselects)
  subst hdue
  refine ⟨w, u, hw, hu, hsweep, hsweep', hfacts.returned, hfacts.after, haccounts, fun m hm => ?_⟩
  refine ((hstore hfacts.saved).2.2 u sampleReport m hsweep' hfacts'.returned hm hfacts'.saved
    (hfacts'.clocks.trans hfacts.clocks.symm) fun r hr => ?_).1
  obtain rfl | hr := List.mem_cons.mp hr
  · exact hfacts'.due.trans hfacts.due.symm
  · obtain rfl := List.mem_singleton.mp hr
    exact hfacts'.late.trans hfacts.late.symm

end Sweeping

end CertSteward
