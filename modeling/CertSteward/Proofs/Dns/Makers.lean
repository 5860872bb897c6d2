import CertSteward.Proofs.Dns.Remains
import CertSteward.Proofs.Issuance.Repetition

/-!
# Who makes the record of a slot

A strand that was sent for a record starts one job, which asks for the record until it is there or
cannot be had. If it cannot, the strand gives the key of the slot up. The slot is empty then, unless
it was not the only one: a second strand of the run that wants the same record may have got the slot
meanwhile, had the record made, and be done before the first one learns of its own job. So a record
can be lost only where two strands want it and a request for it has failed.

## Main definitions

* `Weave.Owns` — a slot to which only one run goes
* `Weave.Contested` — a record that two strands of a run want, and that once could not be made
* `Weave.Unmade` — a job that could not make its record

## Main results

* `DnsPractice.keeps_tries` — a job asks for its record until it gets one
* `Contending.unmade_of_failed` — who gives a key up has started a job that failed
* `Contending.recordIn_of_failed` — a slot whose record is not contested is empty then
-/

namespace CertSteward

/-! ### Tries -/

/-- What was answered to a request for a record. -/
def Act.tried? : (a : Act) → a.Answer → Option (Except DnsError String)
  | .dns (.create ..), answer => some answer.1
  | _, _ => none

/-- The key of the record that a request was for, and that was not made. -/
def Event.unmade? : Event → Option SlotKey
  | ⟨_, _, .dns (.create name value), (.error _, _)⟩ => some (slotKey name value)
  | _ => none

theorem Event.eq_of_made? {e : Event} {h : DnsHandle} (hmade : e.made? = some h) :
    ∃ time, e = ⟨e.strand, e.run, .dns (.create h.name h.value), (.ok h.id, time)⟩ := by
  unfold made? at hmade
  split at hmade
  · cases hmade
    exact ⟨_, rfl⟩
  · cases hmade

/-- An answer to a request for a record, of which only the result is known. -/
theorem Act.eq_of_tried? {a : Act} {answer : a.Answer} {x : Except DnsError String}
    (h : a.tried? answer = some x) : ∃ name value time,
      (⟨a, answer⟩ : Happening) = ⟨.dns (.create name value), (x, time)⟩ := by
  unfold tried? at h
  split at h
  · cases h
    exact ⟨_, _, _, rfl⟩
  · cases h

/-- Whatever it asks for, the answers to requests for records are collected. -/
def tries : Conduct (List (Except DnsError String)) where
  may _ _ _ := True
  next s a answer := s ++ (a.tried? answer).toList

theorem tries_foldl (path : List Happening) (s : List (Except DnsError String)) :
    path.foldl (fun s h => tries.next s h.1 h.2) s = s ++ path.filterMap fun h => h.1.tried? h.2 := by
  induction path generalizing s with
  | nil => exact (List.append_nil s).symm
  | cons h path ih =>
    rw [List.foldl_cons, ih, tries, List.append_assoc, List.filterMap_cons]
    cases h.1.tried? h.2 <;> rfl

namespace DnsPractice

variable {p : DnsPractice} {name value : String} {slot : Nat}

/-- All tries failed but the last one, which came to `x`. -/
def LastTry (s : List (Except DnsError String)) (x : Except DnsError String) : Prop :=
  ∃ errors : List DnsError, s = errors.map .error ++ [x]

/-- One more try is the last one. -/
theorem keeps_try (errors : List DnsError) :
    tries.Keeps (fun b s o => b = false ∧ ∃ x, o = some x ∧ LastTry s x) false (errors.map .error)
      (createOnce name value).run := by
  unfold createOnce
  refine Conduct.keeps_run_bind.mpr (Conduct.keeps_run_perform.mpr ⟨trivial, ?_⟩)
  rintro ⟨result, time⟩ -
  have hlast : LastTry (errors.map .error ++ [result]) result := ⟨errors, rfl⟩
  cases time with
  | none => exact ⟨rfl, _, rfl, hlast⟩
  | some time =>
    refine Conduct.keeps_run_bind.mpr (Conduct.keeps_run_await.mpr ⟨trivial, ?_⟩)
    rintro (_ | _) hpossible
    · cases hpossible
    · refine Conduct.keeps_run_bind.mpr (Conduct.keeps_run_perform.mpr ⟨trivial, fun _ _ => ?_⟩)
      refine ⟨rfl, _, rfl, ?_⟩
      change LastTry (((errors.map .error ++ [result]) ++ []) ++ []) result
      rwa [List.append_nil, List.append_nil]

/-- **A job asks for its record until it gets one**, and comes to what its last try came to. -/
theorem keeps_tries : tries.Keeps (fun _ s r => LastTry s r) false []
    (p.createRecord slot name value) := by
  have hsame : ∀ {s : List (Except DnsError String)}, s ++ [] = s := List.append_nil _
  unfold createRecord
  refine Conduct.keeps_bind.mpr ((Conduct.keeps_retry
    (I := fun s => ∃ errors : List DnsError, s = errors.map .error) (T := LastTry) ⟨[], rfl⟩
    ⟨trivial, fun _ => hsame⟩ ?_ ?_).mono ?_)
  · rintro _ ⟨errors, rfl⟩
    exact keeps_try errors
  · rintro _ e ⟨errors, rfl⟩
    exact ⟨⟨errors ++ [e], by rw [List.map_append]; rfl⟩, ⟨trivial, fun _ => hsame⟩,
      fun _ => ⟨trivial, hsame⟩⟩
  · rintro _ s _ ⟨rfl, x, rfl, hlast⟩
    cases x with
    | ok id =>
      refine Conduct.keeps_bind.mpr (Conduct.keeps_perform.mpr ⟨trivial, fun _ _ => ?_⟩)
      refine Conduct.keeps_bind.mpr (Conduct.keeps_perform.mpr ⟨trivial, fun _ _ => ?_⟩)
      refine Conduct.keeps_bind.mpr (Conduct.keeps_perform.mpr ⟨trivial, fun _ _ => ?_⟩)
      change LastTry (s ++ [] ++ [] ++ []) (.ok id)
      rwa [hsame, hsame, hsame]
    | error e =>
      refine Conduct.keeps_bind.mpr (Conduct.keeps_perform.mpr ⟨trivial, fun _ _ => ?_⟩)
      refine Conduct.keeps_bind.mpr (Conduct.keeps_perform.mpr ⟨trivial, fun _ _ => ?_⟩)
      change LastTry (s ++ [] ++ []) (.error e)
      rwa [hsame, hsame]

end DnsPractice

/-! ### Slots of one run -/

namespace Weave

/-- No run but `i` goes to the slot of a key. -/
def Owns {β : Type} (w : Weave β) (i : Nat) (k : SlotKey) : Prop :=
  ∀ e ∈ w.log, e.act.slotKey? = some k → e.run = i

/-- Two strands of run `i` were sent for the record of a key, and a request for it has failed. -/
structure Contested (w : Weave Issued) (i : Nat) (k : SlotKey) : Prop where
  failed : ∃ e ∈ w.log, e.run = i ∧ e.unmade? = some k
  shared : ∃ j j', j ≠ j' ∧ w.Seeks i k j ∧ w.Seeks i k j'

/-- Job `f` was to make the record of a slot, and could not. -/
def Unmade (w : Weave Issued) (k : SlotKey) (c f : Nat) : Prop :=
  ∃ (t : Strand Issued) (name value : String) (error : DnsError), w.strands[f]? = some t ∧
    t.job = some (.createRecord c name value) ∧ k = slotKey name value ∧
    w.outcome? f = some (.created (.error error))

variable {w u : Weave Issued} {i j c : Nat} {k : SlotKey} {s : Strand Issued}

theorem Owns.of_log {es : List Event} (h : u.Owns i k) (hlog : u.log = w.log ++ es) : w.Owns i k :=
  fun e he => h e (hlog ▸ List.mem_append_left _ he)

/-- A strand with the key of a slot belongs to the run that goes there. -/
theorem Owns.run (h : w.Owns i k) (hw : w.Rooted) (here : w.strands[j]? = some s)
    (hk : (w.errand j).key? = some k) : s.run = i := by
  obtain ⟨e, he, hrun, hkey⟩ := hw j s k here hk
  exact hrun.symm.trans (h e he hkey)

/-- A contested record stays contested. -/
theorem Contested.turn {program : Job → Steward Outcome} {es : List Event} (h : w.Contested i k)
    (step : Turn program w u) (hlog : u.log = w.log ++ es) : u.Contested i k where
  failed := by
    obtain ⟨e, he, hrun, hunmade⟩ := h.failed
    exact ⟨e, hlog ▸ List.mem_append_left _ he, hrun, hunmade⟩
  shared := by
    obtain ⟨j, j', hne, hj, hj'⟩ := h.shared
    exact ⟨j, j', hne, hj.turn step, hj'.turn step⟩

end Weave

namespace Contending

open Weave

variable {p : RenewalPractice} {requests : List (IssuanceRequest × LockMode)}
variable {w u : Weave Issued} {i j n c : Nat} {k : SlotKey} {s : Strand Issued}

/-! ### Requests and the errands of who made them -/

/-- Every request was made by a strand on an errand to which it belongs. -/
theorem errand_of_event (h : Contending p requests w) {e : Event} (he : e ∈ w.log) :
    ∃ (s : Strand Issued) (x : Errand) (b : Bool), w.strands[e.strand]? = some s ∧ s.run = e.run ∧
      x.May s.job b e.act ∧ x.Suits s.job ∧
      ∀ k, x.key? = some k → ∃ e' ∈ w.log, e'.run = e.run ∧ e'.act.slotKey? = some k := by
  unfold Contending at h
  induction h with
  | refl => cases he
  | @step v u reach step ih =>
    have hold : ∀ {es : List Event}, e ∈ v.log → u.log = v.log ++ es → ∃ (s : Strand Issued)
        (x : Errand) (b : Bool), u.strands[e.strand]? = some s ∧ s.run = e.run ∧
          x.May s.job b e.act ∧ x.Suits s.job ∧
          ∀ k, x.key? = some k → ∃ e' ∈ u.log, e'.run = e.run ∧ e'.act.slotKey? = some k := by
      intro es he hlog
      obtain ⟨s, x, b, here, hrun, hmay, hsuits, hkey⟩ := ih he
      obtain ⟨t, ht, hjob, -, hrun'⟩ := step.turn.same here
      refine ⟨t, x, b, ht, hrun'.trans hrun, hjob ▸ hmay, hjob ▸ hsuits, fun k hk => ?_⟩
      obtain ⟨e', he', hevent⟩ := hkey k hk
      exact ⟨e', hlog ▸ List.mem_append_left _ he', hevent⟩
    obtain hsame | ⟨e', s, next, hlog, here, hrun, asks⟩ := step.turn.log_cases
    · exact hold (hsame ▸ he) (hsame.trans (List.append_nil _).symm)
    · rw [hlog, List.mem_append, List.mem_singleton] at he
      obtain he | rfl := he
      · exact hold he hlog
      · obtain ⟨t, ht, hjob, -, hrun'⟩ := step.turn.same here
        refine ⟨t, v.errand e.strand, s.isWatching, ht, hrun'.trans hrun, hjob ▸ may reach here asks,
          hjob ▸ suits reach here, fun k hk => ?_⟩
        obtain ⟨e', he', hrun', hevent⟩ := (rooted reach) _ s k here hk
        exact ⟨e', hlog ▸ List.mem_append_left _ he', hrun'.trans hrun, hevent⟩

/-- A record is asked for by the job that is to make it. -/
theorem job_of_create {e : Event} {name value : String} (h : Contending p requests w)
    (he : e ∈ w.log) (hact : e.act = .dns (.create name value)) :
    ∃ (s : Strand Issued) (c : Nat), w.strands[e.strand]? = some s ∧
      s.job = some (.createRecord c name value) ∧
      ∃ e' ∈ w.log, e'.run = e.run ∧ e'.act.slotKey? = some (slotKey name value) := by
  obtain ⟨s, x, b, here, -, hmay, -, hkey⟩ := h.errand_of_event he
  rw [hact] at hmay
  obtain ⟨c, hjob, rfl⟩ := hmay
  exact ⟨s, c, here, hjob, hkey _ rfl⟩

/-- A job that makes a record was started by a strand that was sent for it. -/
theorem seeks_of_spawn {name value : String} (h : Contending p requests w)
    (hown : w.Owns i (slotKey name value))
    (hspawn : ⟨.spawn (.createRecord c name value), j⟩ ∈ w.path n) :
    w.Seeks i (slotKey name value) n := by
  obtain ⟨run, he⟩ := mem_path.mp hspawn
  obtain ⟨s, x, b, here, hrun, hmay, hsuits, hkey⟩ := h.errand_of_event he
  obtain ⟨d, name', value', rfl, hjob⟩ := hmay
  cases hjob
  obtain ⟨name', value', hjob, hk⟩ := hsuits
  obtain ⟨e', he', hrun', hevent⟩ := hkey _ rfl
  exact ⟨s, name', value', here, hrun.trans (hrun'.symm.trans (hown e' he' hevent)), hjob, hk.symm⟩

/-- Who was sent for a record starts one job. -/
theorem eq_of_spawn {f g : Nat} {job job' : Job} (h : Contending p requests w)
    (hseeks : w.Seeks i k n) (hf : ⟨.spawn job, f⟩ ∈ w.path n) (hg : ⟨.spawn job', g⟩ ∈ w.path n) :
    f = g := by
  obtain ⟨s, name, value, here, -, hjob, -⟩ := hseeks
  obtain ⟨b, c, q, hgoes⟩ := goes_of_job h here hjob
  have hone : (w.spawnedBy n).length ≤ 1 := by
    rw [length_spawnedBy]
    exact (DnsPractice.atMost_spawns_provision name value).map _ _ _ _ _ hgoes
  have hmem : ∀ {f : Nat} {job : Job}, ⟨.spawn job, f⟩ ∈ w.path n → f ∈ w.spawnedBy n :=
    fun hf => List.mem_filterMap.mpr ⟨_, hf, rfl⟩
  match w.spawnedBy n, hone, hmem hf, hmem hg with
  | [x], _, hf, hg => rw [List.mem_singleton.mp hf, List.mem_singleton.mp hg]

/-! ### Jobs that fail -/

/-- Who gives a key up has started a job that could not make the record. -/
theorem unmade_of_failed (h : Contending p requests w) (hat : w.errand n = .failed k c) :
    ∃ f, w.Unmade k c f := by
  unfold Contending at h
  induction h with
  | refl =>
    rw [errand_start] at hat
    cases hat
  | @step v u reach step ih =>
    have hstays : ∀ {f : Nat}, v.Unmade k c f → ∃ f, u.Unmade k c f := by
      rintro f ⟨t, name, value, error, ht, hjob, hk, ho⟩
      obtain ⟨t', ht', hjob', -⟩ := step.turn.same ht
      exact ⟨f, t', name, value, error, ht', hjob'.trans hjob, hk,
        step.turn.outcome? (settled_of_strides reach) ho⟩
    cases (visit reach step).comes n with
    | same errand =>
      obtain ⟨f, hf⟩ := ih (errand.symm.trans hat)
      exact hstays hf
    | @moved s a answer change _ moves =>
      generalize hbefore : v.errand n = e at moves
      rw [hat] at moves
      cases moves with
      | stay =>
        obtain ⟨f, hf⟩ := ih hbefore
        exact hstays hf
      | @fail _ _ f o hfail =>
        obtain ⟨t, name, value, ht, hjob, hk, -⟩ := started reach change.here hbefore
        have ho : v.outcome? f = some o := change.tells
        obtain ⟨result, rfl, -⟩ := endsWith reach ht hjob (Weave.done_of_outcome? ho ht).2
        cases result with
        | ok id => exact absurd rfl (hfail id)
        | error error => exact hstays ⟨t, name, value, error, ht, hjob, hk, ho⟩
    | passed _ _ after => cases hat.symm.trans after
    | begun _ _ after => cases hat.symm.trans after

/-- A job that could not make its record has asked for it in vain, and has never got it. -/
theorem tries_of_outcome? {name value : String} {error : DnsError} (h : Contending p requests w)
    (here : w.strands[j]? = some s) (hjob : s.job = some (.createRecord c name value))
    (ho : w.outcome? j = some (.created (.error error))) :
    (∃ time, ⟨.dns (.create name value), (.error error, time)⟩ ∈ w.path j) ∧
      ∀ name' value' id time, ⟨.dns (.create name' value'), (.ok id, time)⟩ ∉ w.path j := by
  obtain ⟨job, b, d, hjob', howner, hends⟩ := ends_of_outcome? h ho here
  cases hjob.symm.trans hjob'
  obtain rfl := howner (h.kinds.job j s _ here hjob)
  obtain ⟨r, hends, hr⟩ := Steward.ends_map_iff.mp hends
  cases hr
  obtain ⟨errors, htries⟩ : DnsPractice.LastTry _ (.error error) :=
    DnsPractice.keeps_tries.goes hends
  rw [tries_foldl, List.nil_append] at htries
  constructor
  · obtain ⟨y, hy, htried⟩ := List.mem_filterMap.mp
      (htries ▸ List.mem_append_right _ (List.mem_singleton_self _))
    obtain ⟨name', value', time, heq⟩ := Act.eq_of_tried? htried
    have hmem : ⟨.dns (.create name' value'), (.error error, time)⟩ ∈ w.path j := heq ▸ hy
    obtain ⟨run, he⟩ := mem_path.mp hmem
    obtain ⟨t, d', ht, htjob, -⟩ := h.job_of_create he rfl
    cases here.symm.trans ht
    cases hjob.symm.trans htjob
    exact ⟨time, hmem⟩
  · intro name' value' id time hmem
    have hok : (.ok id : Except DnsError String) ∈ errors.map .error ++ [.error error] := by
      rw [← htries]
      exact List.mem_filterMap.mpr ⟨_, hmem, rfl⟩
    simp at hok

/-- **A slot is empty when its key is given up**, unless two strands of the run want its record. -/
theorem recordIn_of_failed (h : Contending p requests w) (hown : w.Owns i k)
    (hcontested : ¬ w.Contested i k) (hat : w.errand n = .failed k c) : w.recordIn c = none := by
  cases hid : w.recordIn c with
  | none => rfl
  | some id =>
    obtain ⟨f, t, name, value, error, ht, htjob, rfl, ho⟩ := h.unmade_of_failed hat
    obtain ⟨⟨time, hunmade⟩, hnever⟩ := h.tries_of_outcome? ht htjob ho
    -- the record was made by another job, for which another strand was sent
    obtain ⟨l, hl, e, he, made, hmade, rfl⟩ := h.recorded.value c id hid
    have hkey : made.key = slotKey name value := Option.some.inj (hl.symm.trans
      (h.keyed.key n _ c (by rw [hat]; rfl) (by rw [hat]; rfl)))
    obtain ⟨time', hevent⟩ := Event.eq_of_made? hmade
    obtain ⟨s, d, hs, hsjob, -⟩ := h.job_of_create he (congrArg Event.act hevent)
    obtain ⟨m, hm⟩ := spawned_of_strides h ht htjob (h.kinds.job f t _ ht htjob)
    obtain ⟨m', hm'⟩ := spawned_of_strides h hs hsjob (h.kinds.job e.strand s _ hs hsjob)
    have hseeks : w.Seeks i (slotKey name value) m := h.seeks_of_spawn hown hm
    have hseeks' : w.Seeks i (slotKey name value) m' := by
      have hown' : w.Owns i made.key := hkey ▸ hown
      exact hkey ▸ h.seeks_of_spawn hown' hm'
    refine absurd ⟨?_, m, m', ?_, hseeks, hseeks'⟩ hcontested
    · obtain ⟨run, hlog⟩ := mem_path.mp hunmade
      obtain ⟨-, -, -, -, e', he', hrun, hslot⟩ := h.job_of_create hlog rfl
      exact ⟨_, hlog, hrun.symm.trans (hown e' he' hslot), rfl⟩
    · rintro rfl
      obtain rfl := h.eq_of_spawn hseeks hm hm'
      refine hnever made.name made.value made.id time' (mem_path.mpr ⟨e.run, ?_⟩)
      exact hevent ▸ he

end Contending

end CertSteward
