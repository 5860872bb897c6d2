import CertSteward.Proofs.Dns.Custody

/-!
# What slots remember

The value of a slot is put there by whoever holds it. So as long as a strand holds a slot it knows
the value, if it has looked, and a value that is there comes from a record that was made.

## Main definitions

* `Weave.recordIn` — the record that a slot remembers
* `Event.made?` — the record that was made by a request
* `Weave.Created` — a record was made for a key
* `Weave.Recorded` — what is remembered was made

## Main results

* `Contending.aware` — who holds a slot knows its value
* `Contending.recorded` — a slot remembers only records that were made
-/

namespace CertSteward

/-- The record that was made by a request. -/
def Event.made? : Event → Option DnsHandle
  | ⟨_, _, .dns (.create name value), (.ok id, _)⟩ => some { name, value, id }
  | _ => none

/-- The key of the record that a job is to make. -/
def Job.recordKey? : Job → Option SlotKey
  | createRecord _ name value | provision name value => some (slotKey name value)
  | _ => none

/-- It is done with its slot, and has done what it was sent for. -/
def Errand.IsDone (e : Errand) : Prop := e = free true ∨ ∃ c, e = out c true

namespace Weave

/-- The record that a slot remembers. -/
def recordIn (w : Weave Issued) (c : Nat) : Option String := (w.slots.value? c).join

/-- A record was made for a key. -/
def Created (w : Weave Issued) (k : SlotKey) : Prop :=
  ∃ e ∈ w.log, ∃ h, e.made? = some h ∧ h.key = k

variable {w u : Weave Issued} {i j c : Nat} {k : SlotKey}

theorem Created.mono {es : List Event} (h : w.Created k) (hlog : u.log = w.log ++ es) :
    u.Created k := by
  obtain ⟨e, he, hmade⟩ := h
  exact ⟨e, hlog ▸ List.mem_append_left _ he, hmade⟩

theorem created_of_create {name value id : String} {run : Nat} {time : Option Duration}
    (hlog : u.log = w.log ++ [⟨i, run, .dns (.create name value), (.ok id, time)⟩]) :
    u.Created (slotKey name value) := by
  refine ⟨⟨i, run, .dns (.create name value), (.ok id, time)⟩, ?_, { name, value, id }, rfl, rfl⟩
  rw [hlog]
  exact List.mem_append_right _ List.mem_cons_self

/-- What a slot remembers changes only if a strand puts it there. -/
theorem Visit.records (h : w.Visit u) (hk : w.Keyed) : (∀ c, u.recordIn c = w.recordIn c) ∨
    ∃ i s d v, w.Changes u i s (.slots (.put d v)) () ∧ w.Apart u i ∧ s.stage = .running ∧
      ∀ c, u.recordIn c = if d = c then v else w.recordIn c := by
  have hsame : u.slots = w.slots → ∀ c, u.recordIn c = w.recordIn c := by
    intro h c
    rw [recordIn, recordIn, h]
  have hvalue : (∀ c, u.slots.value? c = w.slots.value? c) → ∀ c, u.recordIn c = w.recordIn c := by
    intro h c
    rw [recordIn, recordIn, h]
  cases h with
  | calm _ _ slots => exact .inl (hsame slots)
  | enter _ _ _ _ _ _ _ slots =>
    refine .inl (hvalue fun c => ?_)
    rw [slots]
    exact MutexTable.value?_enter
  | got _ _ _ _ slots => exact .inl (hsame slots)
  | gaveUp _ _ _ slots =>
    refine .inl (hvalue fun c => ?_)
    rw [slots]
    split
    · exact MutexTable.value?_withdraw
    · exact MutexTable.value?_leave
  | refused _ _ _ slots => exact .inl (hsame slots)
  | spawn _ _ _ _ _ _ slots => exact .inl (hsame slots)
  | other _ _ _ _ slots => exact .inl (hsame slots)
  | @act i s a answer change apart runs _ slots =>
    cases a with
    | put d v =>
      have hd : d < w.slots.cells.size := by
        refine hk.cell i d ?_
        obtain ⟨_, _, hat, -⟩ | ⟨_, hat, -⟩ := change.may <;> rw [hat] <;> rfl
      refine .inr ⟨i, s, d, v, change, apart, runs, fun c => ?_⟩
      have hslots : u.slots = w.slots.put d v := slots
      rw [recordIn, recordIn, hslots, MutexTable.value?_put hd]
      split <;> rfl
    | obtain k =>
      refine .inl fun c => ?_
      have hslots : u.slots = (w.slots.obtain k none).2 := slots
      rw [recordIn, recordIn, hslots, MutexTable.value?_obtain]
      split
      · -- a new slot remembers nothing
        rename_i hnew
        have hnone : w.slots.value? c = none := by
          rw [MutexTable.value?, hnew.2]
          simp
        rw [hnone]
        rfl
      · rfl
    | find k => exact .inl (hvalue fun c => by rw [slots]; exact MutexTable.value?_find)
    | share d => exact .inl (hvalue fun c => by rw [slots]; exact MutexTable.value?_share)
    | release d => exact .inl (hvalue fun c => by rw [slots]; exact MutexTable.value?_release)
    | value d => exact .inl (hsame slots)
    | leave d => exact .inl (hvalue fun c => by rw [slots]; exact MutexTable.value?_leave)
    | discard k d =>
      have hslots : u.slots = w.slots.discard k d := slots
      obtain h | ⟨-, -, h⟩ := MutexTable.discard_cases (t := w.slots) (k := k) (c := d)
      · exact .inl (hsame (hslots.trans h))
      · exact .inl (hvalue fun c => by rw [hslots, h]; rfl)
    | remove k => exact .inl (hvalue fun c => by rw [slots]; rfl)
    | tryEnter | tidy => exact change.may.elim

/-! ### Who holds a slot knows its value -/

/-- Who holds a slot and has looked knows its value. -/
def Aware (w : Weave Issued) : Prop := ∀ i c v, (w.errand i).holds? = some c →
  (w.errand i).knows? = some v → w.recordIn c = v

theorem Aware.visit (hw : w.Aware) (hk : w.Keyed) (hg : w.Guarded) (h : w.Visit u) :
    u.Aware := by
  intro i c v hholds hknows
  obtain hsame | ⟨j, s, d, v', change, apart, -, hput⟩ := h.records hk
  · rw [hsame]
    cases h.comes i with
    | same errand => exact hw i c v (errand ▸ hholds) (errand ▸ hknows)
    | @moved s a answer change _ moves =>
      have htells := change.tells
      have hold := hw i
      generalize w.errand i = e at moves hold
      generalize u.errand i = e' at moves hholds hknows
      cases moves with
      | stay => exact hold c v hholds hknows
      | look =>
        cases hholds
        cases hknows
        rw [recordIn, ← show _ = w.slots.value? c from htells]
      | share =>
        cases hholds
        cases hknows
        exact hold c none rfl rfl
      | make =>
        cases hholds
        cases hknows
        exact hold c none rfl rfl
      | tryMake => exact hold c v hholds hknows
      | refuse _ knows =>
        cases hholds
        cases hknows
        obtain rfl | rfl := knows <;> exact hold c _ rfl rfl
      | _ => cases hknows
    | passed _ _ after =>
      rw [after] at hholds
      cases hholds
    | begun before _ after =>
      rw [after] at hholds hknows
      cases hholds
      cases hknows
      exact hw _ c none (by rw [before]; rfl) (by rw [before]; rfl)
  · -- nobody else holds the slot to which something is put
    have hgrips : w.Grips j d := by
      obtain ⟨_, _, hat, -⟩ | ⟨_, hat, -⟩ := change.may <;>
        exact grips_of_holds (by rw [hat]; rfl)
    by_cases hij : i = j
    · subst hij
      have hmoves := change.moves
      generalize u.errand i = e' at hmoves hknows
      generalize w.errand i = e at hmoves
      cases hmoves with
      | stay hno => exact hno.elim
      | keep => cases hknows
      | clear => cases hknows
    · have hd : d ≠ c := by
        rintro rfl
        exact hij (hg.single i j d (grips_of_holds (apart i hij ▸ hholds)) hgrips)
      rw [hput, if_neg hd]
      exact hw i c v (apart i hij ▸ hholds) (apart i hij ▸ hknows)

/-! ### What is remembered was made -/

/-- What slots and strands know of are records that were made. -/
structure Recorded (w : Weave Issued) : Prop where
  value : ∀ c id, w.recordIn c = some id → ∃ k, w.keyOf c = some k ∧ w.Created k
  seen : ∀ i k c id, w.errand i = .seen k c (some id) → w.Created k
  made : ∀ i k c id, w.errand i = .made k c id → w.Created k
  kept : ∀ i k c, w.errand i = .kept k c → w.Created k
  done : ∀ (i : Nat) (s : Strand Issued) (job : Job) (k : SlotKey), w.strands[i]? = some s →
    s.job = some job → job.recordKey? = some k → (w.errand i).IsDone → w.Created k

end Weave

namespace Contending

open Weave

variable {p : RenewalPractice} {requests : List (IssuanceRequest × LockMode)}
variable {w u : Weave Issued} {i j c : Nat} {k : SlotKey}

/-- **Who holds a slot and has looked knows its value.** -/
theorem aware (h : Contending p requests w) : w.Aware := by
  unfold Contending at h
  induction h with
  | refl =>
    intro i c v hholds
    rw [errand_start] at hholds
    cases hholds
  | step reach step ih => exact ih.visit (keyed reach) (guarded reach) (visit reach step)

/-- A job that made a record, and has ended, is done. -/
theorem done_of_outcome? {t : Strand Issued} {name value id : String}
    (h : Contending p requests w) (ht : w.strands[j]? = some t)
    (hjob : t.job = some (.createRecord c name value))
    (ho : w.outcome? j = some (.created (.ok id))) : (w.errand j).IsDone := by
  have hends := h.ends ht (Weave.done_of_outcome? ho ht).2
  rw [hjob] at hends
  obtain ⟨r, hr, he⟩ := hends
  cases hr
  rw [errand_journal] at he
  exact .inl he

/-- A job is done only if it has made a record, or has seen that there is one. -/
theorem created_of_moves {s : Strand Issued} {a : Act} {answer : a.Answer} {job : Job}
    (h : Contending p requests w) (hw : w.Recorded) (change : w.Changes u i s a answer)
    (hjob : s.job = some job) (hkey : job.recordKey? = some k) (hdone : (u.errand i).IsDone) :
    w.Created k := by
  have hsuits := h.suits change.here
  have hmoves := change.moves
  have htells := change.tells
  have hold : (w.errand i).IsDone → w.Created k := hw.done i s job k change.here hjob hkey
  have hseen := hw.seen i
  have hkept := hw.kept i
  have hstarted := fun k c j => h.started (k := k) (c := c) (j := j) change.here
  rw [hjob] at hsuits hmoves
  generalize w.errand i = e at hmoves hsuits hold hseen hkept hstarted
  generalize u.errand i = e' at hmoves hdone
  cases hmoves with
  | stay => exact hold hdone
  | release =>
    obtain hdone | ⟨_, hdone⟩ := hdone
    · cases hdone
      exact hold (.inr ⟨_, rfl⟩)
    · cases hdone
  | deleteLost isJob =>
    cases isJob
    cases hkey
  | @succeed l c j id =>
    -- the job that was started has made the record
    obtain ⟨t, name, value, ht, htjob, hl, -⟩ := hstarted l c j rfl
    obtain ⟨name', value', hprovision, hl'⟩ := hsuits
    cases hprovision
    cases hkey
    rw [← hl', hl]
    exact hw.done j t _ _ ht htjob rfl (h.done_of_outcome? ht htjob htells)
  | @leaveSeen l c v may =>
    obtain hnone | ⟨job', hsome, hcases⟩ := hsuits
    · cases hnone
    · cases hsome
      obtain ⟨name, value, rfl, rfl⟩ | ⟨handle, rfl, -⟩ := hcases
      · cases hkey
        obtain ⟨id, rfl⟩ := Option.isSome_iff_exists.mp may.2
        exact hseen _ c id rfl
      · cases hkey
  | leaveKept =>
    obtain ⟨name, value, hcreate, hl⟩ := hsuits
    cases hcreate
    cases hkey
    exact hkept _ _ (by rw [hl])
  | remove =>
    obtain ⟨handle, hdeprovision, -⟩ := hsuits
    cases hdeprovision
    cases hkey
  | _ => obtain hdone | ⟨_, hdone⟩ := hdone <;> cases hdone

/-- **A slot remembers only records that were made.** -/
theorem recorded (h : Contending p requests w) : w.Recorded := by
  unfold Contending at h
  induction h with
  | refl =>
    refine ⟨fun c id hid => ?_, fun i k c id hi => ?_, fun i k c id hi => ?_, fun i k c hi => ?_,
      fun i s job k _ _ _ hi => ?_⟩
    · cases hid
    · rw [errand_start] at hi
      cases hi
    · rw [errand_start] at hi
      cases hi
    · rw [errand_start] at hi
      cases hi
    · rw [errand_start] at hi
      obtain hi | ⟨c, hi⟩ := hi <;> cases hi
  | @step v u reach step ih =>
    have hvisit := visit reach step
    have hkeyed : v.Keyed := keyed reach
    obtain ⟨es, hlog⟩ := hvisit.log
    refine ⟨fun c id hid => ?_, fun i k c id hi => ?_, fun i k c id hi => ?_, fun i k c hi => ?_,
      fun i s job k here hjob hkey hdone => ?_⟩
    · obtain hsame | ⟨i, s, d, v', change, -, -, hput⟩ := hvisit.records hkeyed
      · obtain ⟨k, hk, hcreated⟩ := ih.value c id ((hsame c).symm.trans hid)
        exact ⟨k, keyOf_mono hlog hk, hcreated.mono hlog⟩
      · rw [hput] at hid
        split at hid
        · rename_i hd
          subst hd
          have hmoves := change.moves
          have hmade := ih.made i
          have hkey := hkeyed.key i
          generalize u.errand i = e' at hmoves
          generalize v.errand i = e at hmoves hmade hkey
          cases hmoves with
          | stay hno => exact hno.elim
          | @keep k _ id' =>
            exact ⟨k, keyOf_mono hlog (hkey k d rfl rfl), (hmade k d id' rfl).mono hlog⟩
          | clear => cases hid
        · obtain ⟨k, hk, hcreated⟩ := ih.value c id hid
          exact ⟨k, keyOf_mono hlog hk, hcreated.mono hlog⟩
    · refine Created.mono ?_ hlog
      cases hvisit.comes i with
      | same errand => exact ih.seen i k c id (errand.symm.trans hi)
      | moved change _ moves =>
        have htells := change.tells
        have hold := ih.seen i k c id
        have hkey := hkeyed.key i
        rw [hi] at moves
        generalize v.errand i = e at moves hold hkey
        generalize hid : (some id : Option String) = o at moves
        cases moves with
        | stay => exact hold (by rw [hid])
        | @look _ _ value =>
          have hrecord : v.recordIn c = some id := by
            rw [recordIn, ← show value = v.slots.value? c from htells, hid]
          obtain ⟨k', hk', hcreated⟩ := ih.value c id hrecord
          have hk := hkey k c rfl rfl
          cases hk.symm.trans hk'
          exact hcreated
      | passed _ _ after => cases hi.symm.trans after
      | begun _ _ after => cases hi.symm.trans after
    · cases hvisit.comes i with
      | same errand => exact (ih.made i k c id (errand.symm.trans hi)).mono hlog
      | moved change _ moves =>
        have hold := ih.made i k c id
        have hlog' := change.log
        rw [hi] at moves
        generalize v.errand i = e at moves hold
        cases moves with
        | stay => exact (hold rfl).mono hlog
        | make => exact created_of_create hlog'
      | passed _ _ after => cases hi.symm.trans after
      | begun _ _ after => cases hi.symm.trans after
    · refine Created.mono ?_ hlog
      cases hvisit.comes i with
      | same errand => exact ih.kept i k c (errand.symm.trans hi)
      | moved change _ moves =>
        have hold := ih.kept i k c
        have hmade := ih.made i
        rw [hi] at moves
        generalize v.errand i = e at moves hold hmade
        cases moves with
        | stay => exact hold rfl
        | keep => exact hmade _ _ _ rfl
      | passed _ _ after => cases hi.symm.trans after
      | begun _ _ after => cases hi.symm.trans after
    · refine Created.mono ?_ hlog
      have hblank : ¬ Errand.IsDone .blank := by rintro (h | ⟨_, h⟩) <;> cases h
      cases hvisit.comes i with
      | same errand =>
        cases ht : v.strands[i]? with
        | none =>
          have hle := List.getElem?_eq_none_iff.mp ht
          rw [errand, errand_of_le (numbered_of_strides reach) hle] at hdone
          exact absurd hdone hblank
        | some t =>
          obtain ⟨t', ht', hjob', -⟩ := step.turn.same ht
          obtain rfl := Option.some.inj (here.symm.trans ht')
          exact ih.done i t job k ht (hjob'.symm.trans hjob) hkey (errand ▸ hdone)
      | moved change =>
        obtain ⟨t', ht', hjob', -⟩ := step.turn.same change.here
        obtain rfl := Option.some.inj (here.symm.trans ht')
        exact created_of_moves reach ih change (hjob'.symm.trans hjob) hkey hdone
      | passed _ _ after =>
        rw [after] at hdone
        obtain hdone | ⟨_, hdone⟩ := hdone <;> cases hdone
      | begun _ _ after =>
        rw [after] at hdone
        obtain hdone | ⟨_, hdone⟩ := hdone <;> cases hdone

end Contending

end CertSteward
