import CertSteward.Proofs.Dns.Users
import CertSteward.Proofs.Issuance.Standing

/-!
# What is left of challenge records

A record is there from the call that made it to the call that deletes it. What is left of a run can
so be read off the log: the records that it made and nobody deleted.

A run makes records by jobs that it waits for, so it knows of all slots to which it sent one. It
looks at slots when all these jobs have ended, and removes what it found. This module says so of
runs and their jobs; what it means for a slot is said elsewhere.

## Main definitions

* `Event.deletes`, `Event.refuses` — a record is deleted, or is not
* `remaining` — the records of a run that are left
* `Weave.Seeks`, `Weave.Wants` — strands that were sent for a record, and runs that have one
* `Weave.Looking` — a run that looks at its slots

## Main results

* `Contending.provided` — who looks at slots makes no records any more
* `Contending.sought` — what is removed was found
* `Contending.maker` — a record was made by a job that the run had waited for
-/

namespace CertSteward

/-! ### Records in a log -/

/-- Whether a record is called by this name and id, in letters of any case. -/
def DnsHandle.isCalled (h : DnsHandle) (name id : String) : Bool :=
  Text.lower name == Text.lower h.name && id == h.id

/-- Whether a record is deleted. -/
def Event.deletes (h : DnsHandle) : Event → Bool
  | ⟨_, _, .dns (.delete name id), .ok ()⟩ => h.isCalled name id
  | _ => false

/-- Whether a record was to be deleted, and was not. -/
def Event.refuses (h : DnsHandle) : Event → Bool
  | ⟨_, _, .dns (.delete name id), .error _⟩ => h.isCalled name id
  | _ => false

/-- The records that are there after one more event, of those that run `i` made. -/
def Event.leave (i : Nat) (there : List DnsHandle) (e : Event) : List DnsHandle :=
  (there.filter fun h => !e.deletes h) ++ if e.run = i then e.made?.toList else []

/-- The records that run `i` made and that are there still. -/
def remaining (log : List Event) (i : Nat) : List DnsHandle := log.foldl (Event.leave i) []

theorem remaining_append {log : List Event} {e : Event} {i : Nat} :
    remaining (log ++ [e]) i = e.leave i (remaining log i) := by
  rw [remaining, List.foldl_append]
  rfl

/-- Who is there was there already, and was not deleted, or has just been made. -/
theorem Event.mem_leave {i : Nat} {there : List DnsHandle} {e : Event} {h : DnsHandle} :
    h ∈ e.leave i there ↔ (h ∈ there ∧ e.deletes h = false) ∨ (e.run = i ∧ e.made? = some h) := by
  rw [leave, List.mem_append, List.mem_filter]
  refine or_congr (and_congr_right fun _ => by simp) ?_
  split
  · rename_i hrun
    simp [hrun]
  · rename_i hrun
    simp [hrun]

/-- What remains was made. -/
theorem made_of_remaining {log : List Event} {i : Nat} {h : DnsHandle} (hh : h ∈ remaining log i) :
    ∃ e ∈ log, e.run = i ∧ e.made? = some h := by
  suffices hfold : ∀ (log : List Event) (there : List DnsHandle), h ∈ log.foldl (Event.leave i) there →
      h ∈ there ∨ ∃ e ∈ log, e.run = i ∧ e.made? = some h from
    (hfold log [] hh).resolve_left List.not_mem_nil
  intro log
  induction log with
  | nil => exact fun _ => .inl
  | cons e log ih =>
    intro there hh
    obtain hthere | ⟨e', he', hmade⟩ := ih _ hh
    · exact (Event.mem_leave.mp hthere).imp And.left fun hnew => ⟨e, List.mem_cons_self, hnew⟩
    · exact .inr ⟨e', List.mem_cons_of_mem _ he', hmade⟩

/-- What was made at a slot is called by the name of any record of that slot. -/
theorem DnsHandle.isCalled_of_key {h h' : DnsHandle} (hkey : h.key = h'.key) :
    h.isCalled h'.name h.id = true := by
  rw [isCalled, (Prod.mk.inj hkey).1]
  simp

/-! ### Jobs and their runs -/

/-- Strand `j` belongs to run `i` and was sent for the record of a key. -/
def Weave.Seeks (w : Weave Issued) (i : Nat) (k : SlotKey) (j : Nat) : Prop :=
  ∃ (s : Strand Issued) (name value : String), w.strands[j]? = some s ∧ s.run = i ∧
    s.job = some (.provision name value) ∧ slotKey name value = k

/-- Run `i` has gone to the slot of a key, and has a strand that was sent for its record. -/
structure Weave.Wants (w : Weave Issued) (i : Nat) (k : SlotKey) : Prop where
  went : ∃ e ∈ w.log, e.run = i ∧ e.act.slotKey? = some k
  sent : ∃ j, w.Seeks i k j

/-- Who was sent for a record was sent for it. -/
theorem Weave.Seeks.turn {program : Job → Steward Outcome} {w u : Weave Issued} {i j : Nat}
    {k : SlotKey} (h : w.Seeks i k j) (step : Turn program w u) : u.Seeks i k j := by
  obtain ⟨s, name, value, hs, hrun, hjob, hkey⟩ := h
  obtain ⟨t, ht, hjob', -, hrun'⟩ := step.same hs
  exact ⟨t, name, value, ht, hrun'.trans hrun, hjob'.trans hjob, hkey⟩

namespace Contending

open Weave

variable {p : RenewalPractice} {requests : List (IssuanceRequest × LockMode)}
variable {w u : Weave Issued} {i j : Nat} {s : Strand Issued} {r : IssuanceRequest} {mode : LockMode}

theorem exists_here (h : Contending p requests w) (hat : w.errand j ≠ .blank) :
    ∃ s, w.strands[j]? = some s := by
  cases hs : w.strands[j]? with
  | some s => exact ⟨s, rfl⟩
  | none =>
    exact absurd (errand_of_le (numbered_of_strides h) (List.getElem?_eq_none_iff.mp hs)) hat

/-- What a job has ended with belongs to its errand. -/
theorem endsWith (h : Contending p requests w) (here : w.strands[j]? = some s) {job : Job}
    (hjob : s.job = some job) {o : Outcome} (done : s.program = .done (.inl o)) :
    (w.errand j).EndsWith job o := by
  have hends := h.ends here done
  rw [hjob] at hends
  change (w.journal p.issuance.settings.callTimeout j).errand.EndsWith job o at hends
  rw [errand_journal] at hends
  exact hends

/-- **What is removed was found.** -/
theorem sought {h : DnsHandle} (hc : Contending p requests w) (here : w.strands[j]? = some s)
    (hjob : s.job = some (.deprovision h)) :
    (h.key, some h.id) ∈ (w.standing p.issuance.settings.callTimeout s.run).looked := by
  unfold Contending at hc
  induction hc generalizing j s with
  | refl =>
    obtain ⟨q, -, rfl⟩ := Weave.start_here here
    cases hjob
  | @step v u reach step ih =>
    have hgrows : ∀ {k : Nat} {t : Strand Issued}, v.strands[k]? = some t →
        (v.standing p.issuance.settings.callTimeout t.run).Grows
          (u.standing p.issuance.settings.callTimeout t.run) := by
      intro k t ht
      obtain ⟨m, hm, -⟩ := (kinds reach).run k t ht
      exact grows reach step hm _
    cases step.turn.origin here with
    | old ht hsame _ run =>
      rw [run]
      exact (hgrows ht).looked (ih ht (hsame.symm.trans hjob))
    | @part k t jobs next job' ht hasks mem _ _ hnew _ run =>
      cases hjob.symm.trans hnew
      have hmain : t.job = none := (may reach ht hasks).2
      obtain ⟨r, mode, hr⟩ := run_here reach ht
      have hk := ((kinds reach).main k t ht hmain).1
      rw [run]
      refine (hgrows ht).looked ?_
      rw [hk] at hr ⊢
      exact ((asks reach ht hmain hr hasks).2 _ mem).2
    | started ht hasks _ _ hnew =>
      obtain ⟨_, _, _, -, rfl⟩ := may reach ht hasks
      cases hjob.symm.trans hnew

/-- A run knows the slots to which it sent jobs, or asks for these jobs. -/
theorem sent {name value : String} (h : Contending p requests w) (here : w.strands[j]? = some s)
    (hjob : s.job = some (.provision name value)) :
    slotKey name value ∈ (w.standing p.issuance.settings.callTimeout s.run).asked ∨
      ∃ t jobs next, w.strands[s.run]? = some t ∧ t.program = .ask (.wait (.all jobs)) next ∧
        .provision name value ∈ jobs := by
  unfold Contending at h
  induction h generalizing j s with
  | refl =>
    obtain ⟨q, -, rfl⟩ := Weave.start_here here
    cases hjob
  | @step v u reach step ih =>
    -- who asked for the jobs still does, or has been answered
    have hasked : ∀ {m : Nat} {t : Strand Issued} {jobs : List Job}
        {next : Option (List Outcome) → Steward (Outcome ⊕ Issued)}, v.strands[m]? = some t →
        t.program = .ask (.wait (.all jobs)) next → .provision name value ∈ jobs →
        slotKey name value ∈ (u.standing p.issuance.settings.callTimeout m).asked ∨
          ∃ t jobs next, u.strands[m]? = some t ∧ t.program = .ask (.wait (.all jobs)) next ∧
            .provision name value ∈ jobs := by
      intro m t jobs next ht hasks hmem
      obtain ⟨t', ht', hprogram⟩ | ⟨answer, hpath⟩ := step.turn.program_cases ht hasks
      · exact .inr ⟨t', jobs, next, ht', hprogram.trans hasks, hmem⟩
      · obtain ⟨t', ht', hjob', -⟩ := step.turn.same ht
        rw [standing, journal_append hpath (by rw [job?_of_here ht', job?_of_here ht, hjob'])]
        have hkey : slotKey name value ∈ jobs.filterMap Job.provisionKey? :=
          List.mem_filterMap.mpr ⟨_, hmem, rfl⟩
        cases answer with
        | none => exact .inl (List.mem_append_right _ hkey)
        | some outcomes => exact .inl (List.mem_append_right _ hkey)
    cases step.turn.origin here with
    | old ht hsame _ run =>
      rw [run]
      obtain hold | ⟨t, jobs, next, hm, hasks, hmem⟩ := ih ht (hsame.symm.trans hjob)
      · obtain ⟨m, hm, -⟩ := (kinds reach).run _ _ ht
        exact .inl ((grows reach step hm _).asked hold)
      · exact hasked hm hasks hmem
    | @part k t jobs next job' ht hasks mem _ _ hnew _ run =>
      cases hjob.symm.trans hnew
      have hmain : t.job = none := (may reach ht hasks).2
      rw [run, ((kinds reach).main k t ht hmain).1]
      exact hasked ht hasks mem
    | started ht hasks _ _ hnew =>
      obtain ⟨_, _, _, -, rfl⟩ := may reach ht hasks
      cases hjob.symm.trans hnew

/-- A record is made for a strand of the run that was sent for it. -/
theorem sender {c : Nat} {name value : String} (h : Contending p requests w)
    (here : w.strands[j]? = some s) (hjob : s.job = some (.createRecord c name value)) :
    ∃ n, w.Seeks s.run (slotKey name value) n := by
  unfold Contending at h
  induction h generalizing j s with
  | refl =>
    obtain ⟨q, -, rfl⟩ := Weave.start_here here
    cases hjob
  | @step v u reach step ih =>
    cases step.turn.origin here with
    | old ht hsame _ run =>
      obtain ⟨n, hn⟩ := ih ht (hsame.symm.trans hjob)
      exact ⟨n, run ▸ hn.turn step.turn⟩
    | @part k t jobs next job' ht hasks mem _ _ hnew =>
      cases hjob.symm.trans hnew
      have hmain : t.job = none := (may reach ht hasks).2
      obtain ⟨r, mode, -, -, hsend⟩ := mayAsk reach ht hmain hasks
      exact (hsend _ mem).elim
    | @started n t next job' ht hasks _ _ hnew _ run =>
      obtain ⟨_, name', value', hat, rfl⟩ := may reach ht hasks
      cases hjob.symm.trans hnew
      have hsuits := suits reach ht
      rw [hat] at hsuits
      obtain ⟨name', value', htjob, hkey⟩ := hsuits
      have hseeks : v.Seeks s.run (slotKey name value) n :=
        ⟨t, name', value', ht, run.symm, htjob, hkey.symm⟩
      exact ⟨n, hseeks.turn step.turn⟩

/-- **Who makes a record wants it.** -/
theorem maker {e : Event} {h : DnsHandle} (hc : Contending p requests w) (he : e ∈ w.log)
    (hmade : e.made? = some h) : w.Wants e.run h.key := by
  unfold Contending at hc
  induction hc with
  | refl => cases he
  | @step v u reach step ih =>
    have hvisit := visit reach step
    obtain ⟨es, hlog⟩ := hvisit.log
    have hkeep : ∀ {run : Nat} {k : SlotKey}, v.Wants run k → u.Wants run k := by
      rintro run k ⟨⟨e', he', hevent⟩, j, hj⟩
      exact ⟨⟨e', hlog ▸ List.mem_append_left _ he', hevent⟩, j, hj.turn step.turn⟩
    have hchange : ∀ {i : Nat} {s : Strand Issued} {a : Act} {answer : a.Answer},
        v.Changes u i s a answer → u.Wants e.run h.key := by
      intro i s a answer change
      rw [change.log, List.mem_append, List.mem_singleton] at he
      obtain he | rfl := he
      · exact hkeep (ih he)
      · have hmay := change.may
        unfold Event.made? at hmade
        split at hmade
        · rename_i heq
          cases heq
          cases hmade
          obtain ⟨c, hjob, hat⟩ := hmay
          exact hkeep ⟨(rooted reach) i s _ change.here (by rw [hat]; rfl),
            sender reach change.here hjob⟩
        · cases hmade
    cases hvisit with
    | calm _ _ _ log => exact hkeep (ih (log ▸ he))
    | enter _ _ _ _ _ _ _ _ log => exact hkeep (ih (log ▸ he))
    | got change | gaveUp change | refused change | act change | spawn change | other change =>
      exact hchange change

end Contending

/-! ### Looking at slots -/

/-- Run `i` looks at its slots, or has done so. -/
def Weave.Looking (limit : Duration) (w : Weave Issued) (i : Nat) : Prop :=
  (∃ k c, w.errand i = .found k c ∨ w.errand i = .held k c) ∨ (w.standing limit i).looked ≠ []

namespace Contending

open Weave

variable {p : RenewalPractice} {requests : List (IssuanceRequest × LockMode)}
variable {w u : Weave Issued} {i : Nat} {r : IssuanceRequest} {mode : LockMode}

/-- A run that looks at slots has done so before, or takes its first look now. -/
theorem looking_cases (h : Contending p requests w) (step : Stride p.program w u) {m : Strand Issued}
    (hm : w.strands[i]? = some m) (hmain : m.job = none)
    (hlooks : u.Looking p.issuance.settings.callTimeout i) :
    w.Looking p.issuance.settings.callTimeout i ∨
      m.stage = .running ∧ ∃ k next, m.program = .ask (.slots (.find k)) next := by
  have hvisit := h.visit step
  obtain ⟨k, c, hat⟩ | hlooked := hlooks
  · have hsame : u.errand i = w.errand i → w.Looking p.issuance.settings.callTimeout i :=
      fun herrand => .inl ⟨k, c, herrand ▸ hat⟩
    cases hvisit.comes i with
    | same errand => exact .inl (hsame errand)
    | moved change _ moves hruns =>
      cases hm.symm.trans change.here
      have hasks := change.asks
      rw [hmain] at moves
      generalize hbefore : w.errand i = e at moves
      generalize hafter : u.errand i = e' at moves hat
      obtain rfl | rfl := hat
      · cases moves with
        | stay => exact .inl (hsame (hafter.trans hbefore.symm))
        | obtain isJob => cases isJob
        | find => exact .inr ⟨hruns _ rfl, k, hasks⟩
      · cases moves with
        | stay => exact .inl (hsame (hafter.trans hbefore.symm))
        | enter => exact .inl (.inl ⟨k, c, .inl hbefore⟩)
    | passed _ _ after => rw [after] at hat; obtain hat | hat := hat <;> cases hat
    | begun _ _ after => rw [after] at hat; obtain hat | hat := hat <;> cases hat
  · obtain ⟨x, hx⟩ := List.exists_mem_of_ne_nil _ hlooked
    obtain ⟨m', hm', hmjob, -⟩ := step.turn.same hm
    obtain hsame | ⟨a, answer, change, hslots, hnote⟩ := hvisit.journal_cases hm
      (by rw [job?_of_here hm', job?_of_here hm, hmjob]) p.issuance.settings.callTimeout
    · rw [standing, hsame] at hlooked
      exact .inl (.inr hlooked)
    · rw [standing, hnote] at hx
      obtain hold | ⟨k, heq, -⟩ | ⟨k, c, _, _, heq, hheld, -⟩ := Standing.looked_note hx
      · exact .inl (.inr (List.ne_nil_of_mem hold))
      · cases heq
        exact .inr ⟨(hslots _ rfl).1, k, change.asks⟩
      · rw [errand_journal] at hheld
        exact .inl (.inl ⟨k, c, .inr hheld⟩)

/-- A run that has begun to look at slots has no strand any more that was sent for a record. -/
theorem provided_step (h : Contending p requests w) (hr : requests[i]? = some (r, mode))
    (step : Stride p.program w u)
    (hlooks : u.Looking p.issuance.settings.callTimeout i)
    (hw : w.Looking p.issuance.settings.callTimeout i → ∀ (j : Nat) (s : Strand Issued)
      (name value : String), w.strands[j]? = some s → s.run = i →
        s.job = some (.provision name value) → s.stage = .ended)
    {j : Nat} {s : Strand Issued} {name value : String} (here : u.strands[j]? = some s)
    (hrun : s.run = i) (hjob : s.job = some (.provision name value)) : s.stage = .ended := by
  obtain ⟨m, hm, hmain, -⟩ := h.main_here hr
  have hcases := h.looking_cases step hm hmain hlooks
  cases step.turn.origin here with
  | @old t ht hsame howner hsrun =>
    have hended : t.stage = .ended := by
      obtain hlook | ⟨hruns, -⟩ := hcases
      · exact hw hlook j t name value ht (hsrun.symm.trans hrun) (hsame.symm.trans hjob)
      · refine gathered_of_running h hm hruns j t ht ?_
        have hkind : t.owner = some t.run := h.kinds.job j t _ ht (hsame.symm.trans hjob)
        rw [hkind, hsrun.symm.trans hrun]
    cases here.symm.trans (step.turn.ended (settled_of_strides h) ht hended)
    exact hended
  | @part n t jobs next job ht hasks mem _ _ hnew _ hsrun =>
    cases hjob.symm.trans hnew
    -- the run would have to ask for records now
    obtain ⟨hidle, htmain⟩ := h.may ht hasks
    have hn : t.run = n := (h.kinds.main n t ht htmain).1
    obtain rfl : n = i := hn.symm.trans (hsrun.symm.trans hrun)
    cases hm.symm.trans ht
    obtain (⟨k, c, hat⟩ | hlooked) | ⟨-, k, next', hfind⟩ := hcases
    · obtain hat | hat := hat <;> rw [hat] at hidle <;> cases hidle
    · obtain ⟨-, hsend⟩ := h.asks ht htmain hr hasks
      exact absurd (hsend _ mem).2 hlooked
    · cases hasks.symm.trans hfind
  | started ht hasks _ _ hnew =>
    obtain ⟨_, _, _, -, rfl⟩ := h.may ht hasks
    cases hjob.symm.trans hnew

/-- **Who looks at slots makes no records any more.** -/
theorem provided (h : Contending p requests w) (hr : requests[i]? = some (r, mode))
    (hlooks : w.Looking p.issuance.settings.callTimeout i) :
    ∀ (j : Nat) (s : Strand Issued) (name value : String), w.strands[j]? = some s → s.run = i →
      s.job = some (.provision name value) → s.stage = .ended := by
  unfold Contending at h
  induction h with
  | refl =>
    intro j s name value here _ hjob
    obtain ⟨q, -, rfl⟩ := start_here here
    cases hjob
  | step reach step ih =>
    exact fun j s name value here hrun hjob =>
      provided_step reach hr step hlooks ih here hrun hjob

end Contending

end CertSteward
