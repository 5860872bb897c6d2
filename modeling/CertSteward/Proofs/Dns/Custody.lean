import CertSteward.Proofs.Dns.Cells
import CertSteward.Proofs.Run.Custody

/-!
# Who holds a slot

A cell is held by one strand at a time: by the one whose errand says so, or by one that has been
given it and does not know yet. So nobody comes between a look at the value of a cell and what is
done about it.

## Main definitions

* `Weave.Grips` — holding a cell, known or not
* `Weave.Guarded` — cells are held by one strand at a time

## Main results

* `Contending.guarded` — cells are guarded in all weaves of runs
-/

namespace CertSteward

namespace Errand

variable {job : Option Job} {b : Bool} {e : Errand}

/-- Elsewhere nothing is held or let go. -/
theorem holds?_next_of_elsewhere {a : Act} {answer : a.Answer} (may : e.May job b a)
    (h : a.IsElsewhere) : (e.next a answer).holds? = e.holds? := by
  cases a with
  | slots | spawn => exact h.elim
  | wait v =>
    cases v with
    | slot => exact h.elim
    | join j =>
      obtain ⟨k, c, rfl⟩ := may
      match answer with
      | none => rfl
      | some (.created (.ok _)) => rfl
      | some (.created (.error _)) => rfl
      | some .finished | some .interrupted | some (.provisioned _) | some (.dns _)
      | some (.renewal _) | some (.due _) => rfl
    | _ => rfl
  | dns q =>
    cases q with
    | create name value =>
      obtain ⟨c, -, rfl⟩ := may
      obtain ⟨_ | id, _⟩ := answer <;> rfl
    | delete name id =>
      obtain ⟨handle, -, -, ⟨c, rfl | rfl⟩ | ⟨rfl, -⟩⟩ := may <;> cases answer <;> rfl
    | _ => rfl
  | _ => rfl

/-- No step on the table but to leave changes what is held. -/
theorem holds?_next_slots {a : TableAct SlotKey (Option String)} {answer : a.Answer}
    (may : e.May job b (.slots a)) (h : ∀ c, a ≠ .leave c) :
    (e.next (.slots a) answer).holds? = e.holds? := by
  cases a with
  | obtain k =>
    obtain ⟨rfl, -⟩ := may
    rfl
  | find k =>
    obtain ⟨hidle, -⟩ := may
    have hnone : e.holds? = none := by
      cases e with
      | blank | free | lost => rfl
      | _ => cases hidle
    rw [hnone]
    cases answer <;> rfl
  | share c =>
    obtain ⟨k, rfl, -⟩ := may
    rfl
  | release c =>
    obtain ⟨isDone, rfl⟩ := may
    rfl
  | value c =>
    obtain ⟨k, rfl⟩ := may
    rfl
  | put c v => obtain ⟨k, id, rfl, -⟩ | ⟨k, rfl, -⟩ := may <;> rfl
  | discard k c =>
    subst may
    rfl
  | remove k =>
    obtain ⟨c, rfl⟩ := may
    rfl
  | leave c => exact absurd rfl (h c)
  | tryEnter | tidy => exact may.elim

/-- Who leaves a cell holds it, and then holds none. -/
theorem holds?_leave {c : Nat} (may : e.MayLeave job c) :
    e.holds? = some c ∧ e.leave.holds? = none := by
  cases e with
  | seen k d v => obtain ⟨rfl, -⟩ := may; exact ⟨rfl, rfl⟩
  | making | kept | refused | cleared => subst may; exact ⟨rfl, rfl⟩
  | _ => exact may.elim

end Errand

namespace Weave

/-- A strand holds a cell, or has been given it and does not know yet. -/
abbrev Grips (w : Weave Issued) (i c : Nat) : Prop :=
  w.slots.Grips w.awaits (fun i => (w.errand i).holds?) i c

/-- Cells are held by one strand at a time, and who is in line for one waits for it. -/
abbrev Guarded (w : Weave Issued) : Prop :=
  w.slots.Custody w.awaits fun i => (w.errand i).holds?

variable {w u : Weave Issued} {i j c : Nat}

theorem grips_of_holds (h : (w.errand i).holds? = some c) : w.Grips i c := .inl h

section Changes

variable {s : Strand Issued} {a : Act} {answer : a.Answer}

/-- A strand that waited for nothing goes on, and holds what it held. -/
theorem Guarded.of_changes (hw : w.Guarded) (h : w.Changes u i s a answer) (apart : w.Apart u i)
    (before : w.awaits i = none) (line : ∀ c, u.slots.line c = w.slots.line c)
    (held : ∀ c, u.slots.isHeld c = w.slots.isHeld c)
    (holds : ((w.errand i).next a answer).holds? = (w.errand i).holds?) : u.Guarded := by
  refine hw.of_same line held (fun j => ?_) fun j => ?_
  · by_cases hj : j = i
    · rw [hj, h.awaits, before]
    · exact h.others j hj
  · by_cases hj : j = i
    · rw [hj, h.errand, holds]
    · rw [apart j hj]

/-- Other strands hold what they held. -/
theorem Apart.holds (h : w.Apart u i) : ∀ j, j ≠ i → (u.errand j).holds? = (w.errand j).holds? :=
  fun j hj => by rw [h j hj]

end Changes

theorem Guarded.visit (hw : w.Guarded) (hk : w.Keyed) (h : w.Visit u) : u.Guarded := by
  cases h with
  | calm errand awaits slots _ =>
    exact hw.of_same (fun c => by rw [slots]) (fun c => by rw [slots]) awaits fun j => by rw [errand]
  | @enter i c s k here runs hat errand before after others slots _ =>
    have henter := hw.enter (hk.cell i c (by rw [hat]; rfl)) before after others (by rw [hat]; rfl)
    rw [← slots] at henter
    exact henter.of_same (fun _ => rfl) (fun _ => rfl) (fun _ => rfl) fun j => by rw [errand]
  | @got i c s change apart before granted slots =>
    obtain ⟨⟨k, hat⟩, -⟩ := change.may
    have hgot := hw.got before granted change.awaits (by rw [change.errand, hat]; rfl)
      change.others apart.holds
    rw [← slots] at hgot
    exact hgot
  | @gaveUp i c s change apart before slots =>
    obtain ⟨⟨k, hat⟩, -⟩ := change.may
    have hgave := hw.gaveUp before change.awaits (by rw [change.errand, hat]; rfl) change.others
      apart.holds
    rw [← slots] at hgave
    exact hgave
  | @refused i c s change apart before slots =>
    refine hw.of_changes change apart before (fun c => by rw [slots]) (fun c => by rw [slots]) ?_
    obtain ⟨⟨k, hat⟩, -⟩ := change.may
    rw [hat]
    rfl
  | @act i s a answer change apart runs before slots =>
    have hsame : (∀ c, a ≠ .leave c) → (∀ c, u.slots.line c = w.slots.line c) →
        (∀ c, u.slots.isHeld c = w.slots.isHeld c) → u.Guarded := fun ha line held =>
      hw.of_changes change apart before line held (Errand.holds?_next_slots change.may ha)
    cases a with
    | leave c =>
      obtain ⟨hholds, hnone⟩ := Errand.holds?_leave change.may
      have hleave := hw.leave (.inl hholds) change.awaits (by rw [change.errand]; exact hnone)
        change.others apart.holds (hw.not_mem_line before)
      rw [Weave.Guarded, slots]
      exact hleave
    | obtain k =>
      refine hsame nofun (fun c => ?_) fun c => ?_
      · rw [slots]
        exact MutexTable.line_obtain
      · rw [slots]
        exact MutexTable.isHeld_obtain
    | find k =>
      refine hsame nofun (fun c => ?_) fun c => ?_
      · rw [slots]
        exact MutexTable.line_find
      · rw [slots]
        exact MutexTable.isHeld_find
    | share d =>
      refine hsame nofun (fun c => ?_) fun c => ?_
      · rw [slots]
        exact MutexTable.line_share
      · rw [slots]
        exact MutexTable.isHeld_share
    | release d =>
      refine hsame nofun (fun c => ?_) fun c => ?_
      · rw [slots]
        exact MutexTable.line_release
      · rw [slots]
        exact MutexTable.isHeld_release
    | put d v =>
      refine hsame nofun (fun c => ?_) fun c => ?_
      · rw [slots]
        exact MutexTable.line_put
      · rw [slots]
        exact MutexTable.isHeld_put
    | value d => exact hsame nofun (fun c => by rw [slots]; rfl) fun c => by rw [slots]; rfl
    | discard k d =>
      have hslots : u.slots = w.slots.discard k d := slots
      obtain h | ⟨-, -, h⟩ := MutexTable.discard_cases (t := w.slots) (k := k) (c := d)
      · rw [h] at hslots
        exact hsame nofun (fun c => by rw [hslots]) fun c => by rw [hslots]
      · rw [h] at hslots
        exact hsame nofun (fun c => by rw [hslots]; rfl) fun c => by rw [hslots]; rfl
    | remove k => exact hsame nofun (fun c => by rw [slots]; rfl) fun c => by rw [slots]; rfl
    | tryEnter | tidy => exact change.may.elim
  | @spawn i c s name value change apart runs before new _ slots =>
    obtain ⟨d, name', value', hat, hjob⟩ := change.may
    obtain ⟨rfl, rfl, rfl⟩ := Job.createRecord.inj hjob
    have hlen : w.awaits w.strands.length = none := by
      rw [awaits, List.getElem?_eq_none (Nat.le_refl _)]
      rfl
    rw [Weave.Guarded, slots]
    refine hw.pass (grips_of_holds (i := i) (c := c) (by rw [hat]; rfl)) ?_ (fun j => ?_) before ?_
      hlen fun j hj hj' => by rw [apart j hj hj']
    · rw [change.errand, hat]
      rfl
    · by_cases hj : j = i
      · rw [hj, change.awaits, before]
      · exact change.others j hj
    · rw [new]
      rfl
  | other change apart before elsewhere slots =>
    exact hw.of_changes change apart before (fun c => by rw [slots]) (fun c => by rw [slots])
      (Errand.holds?_next_of_elsewhere change.may elsewhere)

/-- Nobody waits at the beginning. -/
theorem awaits_start {ps : List (Steward Issued)} {i : Nat} : (start ps).awaits i = none := by
  cases hawaits : (start ps).awaits i with
  | none => rfl
  | some c =>
    obtain ⟨s, parts, next, here, hstage, -⟩ := asks_of_awaits hawaits
    obtain ⟨q, -, rfl⟩ := start_here here
    cases hstage

end Weave

/-- **Cells are held by one strand at a time.** -/
theorem Contending.guarded {p : RenewalPractice} {requests : List (IssuanceRequest × LockMode)}
    {w : Weave Issued} (h : Contending p requests w) : w.Guarded := by
  unfold Contending at h
  induction h with
  | refl =>
    refine .of_nobody (fun _ => rfl) (fun i => Weave.awaits_start) fun i => ?_
    rw [Weave.errand_start]
    rfl
  | step reach step ih =>
    exact ih.visit (Contending.keyed reach) (Contending.visit reach step)

end CertSteward
