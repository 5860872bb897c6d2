import CertSteward.Proofs.Dns.Makers

/-!
# Slots are tended

A record that is left is within reach of its run: a job has just made it and holds the slot, or the
slot remembers it and its key leads there. So nothing is left of a slot in which the run found
nothing, and what it found is what is left.

A key is given up in two places. Who failed to make a record gives it up if nobody else uses the
slot, which is then empty unless the record is contested. Who deleted a record gives it up in any
case: at that time the run makes no records any more, and nothing is left of the slot.

## Main definitions

* `Errand.Relies`, `Errand.IsBusy` — errands that need their key, and that lead to a record
* `Weave.Past`, `Weave.Gone` — no record is made any more, and none is left
* `Weave.Tended` — what is left is within reach

## Main results

* `Contending.tended`
-/

namespace CertSteward

namespace Errand

/-- It relies on its key to lead to its cell. -/
def Relies (k : SlotKey) (c : Nat) : Errand → Prop
  | found l d | held l d | seen l d _ | sharing l d | making l d | made l d _ | kept l d =>
    l = k ∧ d = c
  | _ => False

/-- A record is made for its key, or was made, and the slot is not let go yet. -/
def IsBusy (k : SlotKey) : Errand → Prop
  | sharing l _ | making l _ | made l _ _ | kept l _ => l = k
  | _ => False

/-- It has removed a record, or found that there is none. -/
def HasRemoved : Errand → Prop
  | lost _ | seen _ _ none | deleted .. | cleared .. | leaving .. | out _ true | free true => True
  | _ => False

/-- It is done with its slot, and has not done what it was sent for. -/
def HasFailed : Errand → Prop
  | out _ false | free false => True
  | _ => False

variable {job : Option Job} {e e' : Errand} {a : Act} {answer : a.Answer} {k : SlotKey} {c : Nat}

theorem Relies.cell (h : e.Relies k c) : e.cell? = some c := by
  cases e with
  | found | held | seen | sharing | making | made | kept => exact congrArg some h.2
  | _ => exact h.elim

theorem Relies.key (h : e.Relies k c) : e.key? = some k := by
  cases e with
  | found | held | seen | sharing | making | made | kept => exact congrArg some h.1
  | _ => exact h.elim

theorem IsBusy.relies (h : e.IsBusy k) : ∃ c, e.Relies k c ∧ e.holds? = some c := by
  cases e with
  | sharing l d | making l d | made l d | kept l d => exact ⟨d, ⟨h, rfl⟩, rfl⟩
  | _ => exact h.elim

/-- Who relies on a key did so before, or has just come by it. -/
theorem Moves.relies (h : Moves job e a answer e') (h' : e'.Relies k c) :
    e.Relies k c ∨ (⟨a, answer⟩ : Happening) = ⟨.slots (.obtain k), c⟩ ∨
      (⟨a, answer⟩ : Happening) = ⟨.slots (.find k), some c⟩ := by
  cases h with
  | stay => exact .inl h'
  | obtain =>
    obtain ⟨rfl, rfl⟩ := h'
    exact .inr (.inl rfl)
  | find =>
    obtain ⟨rfl, rfl⟩ := h'
    exact .inr (.inr rfl)
  | enter | look | share | make | tryMake | keep => exact .inl h'
  | deleteLost => exact h'.elim
  | _ => exact h'.elim

/-- A record is made where one was made before, or where there was none. -/
theorem Moves.isBusy (h : Moves job e a answer e') (h' : e'.IsBusy k) :
    e.IsBusy k ∨ ∃ c, e = seen k c none ∧ a = .slots (.share c) := by
  cases h with
  | stay | make | tryMake | keep => exact .inl h'
  | share =>
    obtain rfl := h'
    exact .inr ⟨_, rfl, rfl⟩
  | _ => exact h'.elim

end Errand

namespace Weave

variable {w u : Weave Issued} {i j c : Nat} {k : SlotKey} {s : Strand Issued}

/-! ### Where a key leads -/

/-- What becomes of the cell to which a key leads. -/
inductive KeyChange (w u : Weave Issued) (k : SlotKey) : Prop
  | same (h : u.slots.index.lookup k = w.slots.index.lookup k)
  | new {i c : Nat} {s : Strand Issued} (change : w.Changes u i s (.slots (.obtain k)) c)
    (before : w.slots.index.lookup k = none) (after : u.slots.index.lookup k = some c)
  | discarded {i c : Nat} {s : Strand Issued} (change : w.Changes u i s (.slots (.discard k c)) ())
    (runs : s.stage = .running) (before : w.slots.index.lookup k = some c)
    (single : w.slots.users c ≤ 1)
  | removed {i : Nat} {s : Strand Issued} (change : w.Changes u i s (.slots (.remove k)) ())
    (runs : s.stage = .running)

theorem Visit.keyChange (h : w.Visit u) (k : SlotKey) : w.KeyChange u k := by
  have hindex : u.slots.index = w.slots.index → w.KeyChange u k := fun h => .same (by rw [h])
  cases h with
  | calm _ _ slots | got _ _ _ _ slots | refused _ _ _ slots | spawn _ _ _ _ _ _ slots
  | other _ _ _ _ slots => exact hindex (by rw [slots])
  | enter _ _ _ _ _ _ _ slots => exact hindex (by rw [slots, MutexTable.index_enter])
  | gaveUp _ _ _ slots =>
    refine hindex ?_
    rw [slots]
    split
    · rfl
    · exact MutexTable.index_leave
  | @act i s a answer change apart runs _ slots =>
    cases a with
    | obtain l =>
      have hslots : u.slots = (w.slots.obtain l none).2 := slots
      have hfits : answer = (w.slots.obtain l none).1 := change.tells
      by_cases hkl : k = l
      · subst hkl
        cases hlook : w.slots.index.lookup k with
        | none =>
          refine .new change hlook ?_
          rw [hslots, MutexTable.lookup_obtain_self, hfits]
        | some c =>
          refine hindex ?_
          rw [hslots, MutexTable.obtain_of_some hlook]
          rfl
      · refine .same ?_
        rw [hslots, MutexTable.lookup_obtain, if_neg fun h => hkl (eq_of_beq h)]
    | find l =>
      refine hindex ?_
      rw [slots]
      exact MutexTable.index_find
    | share | release | put | value =>
      refine hindex ?_
      rw [slots]
      rfl
    | leave =>
      refine hindex ?_
      rw [slots]
      exact MutexTable.index_leave
    | discard l c =>
      have hslots : u.slots = w.slots.discard l c := slots
      obtain h | ⟨hlook, husers, h⟩ := MutexTable.discard_cases (t := w.slots) (k := l) (c := c)
      · exact hindex (by rw [hslots, h])
      · by_cases hkl : k = l
        · subst hkl
          exact .discarded change runs hlook husers
        · refine .same ?_
          rw [hslots, h, MutexTable.lookup_remove, if_neg fun h => hkl (eq_of_beq h)]
    | remove l =>
      have hslots : u.slots = w.slots.remove l := slots
      by_cases hkl : k = l
      · subst hkl
        exact .removed change runs
      · refine .same ?_
        rw [hslots, MutexTable.lookup_remove, if_neg fun h => hkl (eq_of_beq h)]
    | tryEnter | tidy => exact change.may.elim

/-! ### What is left after a step -/

/-- What is left after an answer. -/
theorem Changes.remaining {a : Act} {answer : a.Answer} (h : w.Changes u j s a answer) (i : Nat) :
    remaining u.log i = Event.leave i (remaining w.log i) ⟨j, s.run, a, answer⟩ := by
  rw [h.log, remaining_append]

/-- A record that is left was left before, or has just been made. -/
theorem Visit.remaining_cases {h : DnsHandle} (hvisit : w.Visit u)
    (hh : h ∈ CertSteward.remaining u.log i) : h ∈ CertSteward.remaining w.log i ∨
      ∃ j s time, w.Changes u j s (.dns (.create h.name h.value)) (.ok h.id, time) ∧ s.run = i := by
  have hchange : ∀ {j : Nat} {s : Strand Issued} {a : Act} {answer : a.Answer},
      w.Changes u j s a answer → h ∈ CertSteward.remaining w.log i ∨
        ∃ j s time, w.Changes u j s (.dns (.create h.name h.value)) (.ok h.id, time) ∧ s.run = i := by
    intro j s a answer change
    rw [change.remaining, Event.mem_leave] at hh
    obtain ⟨hold, -⟩ | ⟨hrun, hmade⟩ := hh
    · exact .inl hold
    · unfold Event.made? at hmade
      split at hmade
      · rename_i heq
        cases heq
        cases hmade
        exact .inr ⟨j, s, _, change, hrun⟩
      · cases hmade
  cases hvisit with
  | calm _ _ _ log | enter _ _ _ _ _ _ _ _ log => exact .inl (log ▸ hh)
  | got change | gaveUp change | refused change | act change | spawn change | other change =>
    exact hchange change

/-! ### The invariant -/

/-- No record is made for a slot any more: the run has begun to look at slots, and no job is under
way. -/
structure Past (limit : Duration) (w : Weave Issued) (i : Nat) (k : SlotKey) : Prop where
  looked : (w.standing limit i).looked ≠ []
  unbusy : ∀ j, ¬ (w.errand j).IsBusy k

/-- No record is left of a slot. -/
def Gone (w : Weave Issued) (i : Nat) (k : SlotKey) : Prop := ∀ h ∈ remaining w.log i, h.key ≠ k

/-- What run `i` left of its slot `k` is within reach. -/
structure Tended (limit : Duration) (w : Weave Issued) (i : Nat) (k : SlotKey) : Prop where
  relies : ∀ j c, (w.errand j).Relies k c →
    w.slots.index.lookup k = some c ∨ w.Past limit i k ∧ w.Gone i k
  leads : ∀ c id, w.keyOf c = some k → w.recordIn c = some id → w.slots.index.lookup k = some c
  known : ∀ h ∈ remaining w.log i, h.key = k → (∃ j c, w.errand j = .made k c h.id) ∨
    ∃ c, w.keyOf c = some k ∧ w.recordIn c = some h.id
  /-- There is one record at most. -/
  single : (remaining w.log i).Pairwise fun h h' => ¬ (h.key = k ∧ h'.key = k)
  looked : ∀ v, (k, v) ∈ (w.standing limit i).looked → w.Past limit i k ∧ (v = none → w.Gone i k)
  gone : ∀ (j : Nat) (s : Strand Issued) (h : DnsHandle), w.strands[j]? = some s → s.run = i →
    s.job = some (.deprovision h) → h.key = k → (w.errand j).HasRemoved → w.Gone i k
  /-- Who has deleted a record is the last to be told of by the slot. -/
  deleted : ∀ j c d id, w.errand j = .deleted k c → w.keyOf d = some k → w.recordIn d = some id →
    d = c
  cleared : ∀ j c d, w.errand j = .cleared k c ∨ w.errand j = .leaving k c →
    w.keyOf d = some k → w.recordIn d = none
  refused : ∀ j c id, w.errand j = .refused k c id → ∀ h : DnsHandle, h.key = k → h.id = id →
    ∃ e ∈ w.log, e.run = i ∧ e.refuses h = true
  failed : ∀ (j : Nat) (s : Strand Issued) (h : DnsHandle), w.strands[j]? = some s → s.run = i →
    s.job = some (.deprovision h) → h.key = k → (w.errand j).HasFailed →
    ∀ h' ∈ remaining w.log i, h'.key = k → ∃ e ∈ w.log, e.run = i ∧ e.refuses h' = true

variable {limit : Duration}

/-- Who makes a record holds the slot to which the key leads. -/
theorem Tended.lookup_of_busy (hw : w.Tended limit i k) (hbusy : (w.errand j).IsBusy k) :
    ∃ c, (w.errand j).holds? = some c ∧ w.slots.index.lookup k = some c := by
  obtain ⟨c, hrelies, hholds⟩ := hbusy.relies
  obtain hlook | ⟨hpast, -⟩ := hw.relies j c hrelies
  · exact ⟨c, hholds, hlook⟩
  · exact absurd hbusy (hpast.unbusy j)

/-- Where no record is made, what is left is remembered by the slot to which the key leads. -/
theorem Tended.record_of_mem {h : DnsHandle} (hw : w.Tended limit i k)
    (hunbusy : ∀ j, ¬ (w.errand j).IsBusy k) (hh : h ∈ remaining w.log i) (hkey : h.key = k) :
    ∃ c, w.slots.index.lookup k = some c ∧ w.recordIn c = some h.id := by
  obtain ⟨j, c, hat⟩ | ⟨c, hk, hid⟩ := hw.known h hh hkey
  · exact absurd (show (w.errand j).IsBusy k by rw [hat]; rfl) (hunbusy j)
  · exact ⟨c, hw.leads c h.id hk hid, hid⟩

/-- Nothing is left where the key leads nowhere. -/
theorem Tended.of_lost (hw : w.Tended limit i k) (hlost : w.slots.index.lookup k = none) :
    (∀ j, ¬ (w.errand j).IsBusy k) ∧ w.Gone i k := by
  have hunbusy : ∀ j, ¬ (w.errand j).IsBusy k := by
    intro j hbusy
    obtain ⟨c, -, hlook⟩ := hw.lookup_of_busy hbusy
    cases hlost.symm.trans hlook
  refine ⟨hunbusy, fun h hh hkey => ?_⟩
  obtain ⟨c, hlook, -⟩ := hw.record_of_mem hunbusy hh hkey
  cases hlost.symm.trans hlook

/-- Who holds the slot makes sure that nobody else makes a record for it. -/
theorem Tended.unbusy_of_held (hw : w.Tended limit i k) (hg : w.Guarded)
    (hat : w.errand j = .held k c) (n : Nat) : ¬ (w.errand n).IsBusy k := by
  intro hbusy
  obtain hlook | ⟨hpast, -⟩ := hw.relies j c (by rw [hat]; exact ⟨rfl, rfl⟩)
  · obtain ⟨d, hholds, hlook'⟩ := hw.lookup_of_busy hbusy
    cases hlook.symm.trans hlook'
    obtain rfl := hg.single n j c (grips_of_holds hholds) (grips_of_holds (by rw [hat]; rfl))
    rw [hat] at hbusy
    exact hbusy
  · exact hpast.unbusy n hbusy

/-- Nothing is left if the slot that is held is empty. -/
theorem Tended.gone_of_held (hw : w.Tended limit i k) (hg : w.Guarded)
    (hat : w.errand j = .held k c) (hempty : w.recordIn c = none) : w.Gone i k := by
  obtain hlook | ⟨-, hgone⟩ := hw.relies j c (by rw [hat]; exact ⟨rfl, rfl⟩)
  · intro h hh hkey
    obtain ⟨d, hlook', hid⟩ := hw.record_of_mem (hw.unbusy_of_held hg hat) hh hkey
    cases hlook.symm.trans hlook'
    cases hempty.symm.trans hid
  · exact hgone

/-- Nothing is left where a record is about to be made. -/
theorem Tended.gone_of_making (hw : w.Tended limit i k) (hg : w.Guarded) (ha : w.Aware)
    (hat : w.errand j = .making k c) : w.Gone i k := by
  have hbusy : (w.errand j).IsBusy k := by rw [hat]; rfl
  have hholds : (w.errand j).holds? = some c := by rw [hat]; rfl
  obtain ⟨d, hholds', hlook⟩ := hw.lookup_of_busy hbusy
  cases hholds.symm.trans hholds'
  intro h hh hkey
  obtain ⟨n, d, hmade⟩ | ⟨d, hk, hid⟩ := hw.known h hh hkey
  · obtain ⟨d, hholds', hlook'⟩ := hw.lookup_of_busy (j := n) (by rw [hmade]; rfl)
    cases hlook.symm.trans hlook'
    obtain rfl := hg.single n j c (grips_of_holds hholds') (grips_of_holds hholds)
    cases hat.symm.trans hmade
  · cases hlook.symm.trans (hw.leads d h.id hk hid)
    have hnone := ha j c none hholds (by rw [hat]; rfl)
    cases hnone.symm.trans hid

/-- Who is about to delete the record of a slot deletes what is left. -/
theorem Tended.id_of_record {h : DnsHandle} {id : String} (hw : w.Tended limit i k)
    (hunbusy : ∀ j, ¬ (w.errand j).IsBusy k) (hk : w.keyOf c = some k)
    (hid : w.recordIn c = some id) (hh : h ∈ remaining w.log i) (hkey : h.key = k) : h.id = id := by
  obtain ⟨d, hlook, hid'⟩ := hw.record_of_mem hunbusy hh hkey
  cases hlook.symm.trans (hw.leads c id hk hid)
  exact Option.some.inj (hid'.symm.trans hid)

/-! ### Steps on the table -/

/-- What a step on the table leaves. -/
theorem Changes.slots {a : TableAct SlotKey (Option String)} {answer : a.Answer}
    (h : w.Changes u j s (.slots a) answer) (hvisit : w.Visit u) :
    u.slots = (w.slots.apply none a).2 ∧ w.Apart u j := by
  have hother : ∀ {j' : Nat} {s' : Strand Issued} {a' : Act} {answer' : a'.Answer},
      w.Changes u j' s' a' answer' → (∀ b, a' ≠ .slots b) → False := by
    intro j' s' a' answer' change hne
    have hlog := List.append_cancel_left (change.log.symm.trans h.log)
    exact hne a (congrArg Event.act (List.cons.inj hlog).1)
  cases hvisit with
  | calm _ _ _ log =>
    have hlog := List.append_cancel_left ((List.append_nil _).trans (log.symm.trans h.log))
    cases hlog
  | enter _ _ _ _ _ _ _ _ log =>
    have hlog := List.append_cancel_left ((List.append_nil _).trans (log.symm.trans h.log))
    cases hlog
  | got change | gaveUp change | refused change | spawn change => exact (hother change nofun).elim
  | other change _ _ elsewhere =>
    refine (hother change ?_).elim
    rintro b rfl
    exact elsewhere
  | act change apart _ _ slots =>
    have hevent := (List.cons.inj (List.append_cancel_left (change.log.symm.trans h.log))).1
    obtain rfl := congrArg Event.strand hevent
    cases congrArg Event.act hevent
    exact ⟨slots, apart⟩

end Weave

/-! ### Steps keep what is left within reach -/

namespace Contending

open Weave

variable {p : RenewalPractice} {requests : List (IssuanceRequest × LockMode)}
variable {w u : Weave Issued} {i j c d : Nat} {k : SlotKey} {s : Strand Issued}
variable {r : IssuanceRequest} {mode : LockMode}

/-- No record is made any more. -/
theorem past_step (h : Contending p requests w) (hr : requests[i]? = some (r, mode))
    (hown : w.Owns i k) (step : Stride p.program w u)
    (hpast : w.Past p.issuance.settings.callTimeout i k) :
    u.Past p.issuance.settings.callTimeout i k where
  looked := by
    obtain ⟨m, hm, -⟩ := h.main_here hr
    obtain ⟨x, hx⟩ := List.exists_mem_of_ne_nil _ hpast.looked
    exact List.ne_nil_of_mem ((h.grows step hm _).looked hx)
  unbusy j hbusy := by
    cases (h.visit step).comes j with
    | same errand => exact hpast.unbusy j (errand ▸ hbusy)
    | @moved t a answer change _ moves hruns =>
      have hmay := change.may
      have hrun := hown.run h.rooted change.here
      obtain hold | ⟨c, hseen, rfl⟩ := moves.isBusy hbusy
      · exact hpast.unbusy j hold
      · -- who was sent for a record has ended
        obtain ⟨_, -, name, value, hjob⟩ := hmay
        have hended := h.provided hr (.inr hpast.looked) j t name value change.here
          (hrun (by rw [hseen]; rfl)) hjob
        cases hended.symm.trans (hruns _ rfl)
    | passed _ _ after =>
      rw [after] at hbusy
      exact hbusy
    | @begun n c t t' name value before _ after =>
      rw [after] at hbusy
      exact hpast.unbusy n (by rw [before]; exact hbusy)

/-- Where no record is made any more, none is left later. -/
theorem remaining_of_past (h : Contending p requests w) (step : Stride p.program w u)
    (hpast : w.Past p.issuance.settings.callTimeout i k) {h' : DnsHandle}
    (hh : h' ∈ remaining u.log i) (hkey : h'.key = k) : h' ∈ remaining w.log i := by
  obtain hold | ⟨n, t, time, change, -⟩ := (h.visit step).remaining_cases hh
  · exact hold
  · obtain ⟨c, -, hat⟩ := change.may
    exact absurd (show (w.errand n).IsBusy k by rw [hat]; exact hkey) (hpast.unbusy n)

theorem gone_step (h : Contending p requests w) (step : Stride p.program w u)
    (hpast : w.Past p.issuance.settings.callTimeout i k) (hgone : w.Gone i k) : u.Gone i k :=
  fun h' hh hkey => hgone h' (h.remaining_of_past step hpast hh hkey) hkey

section Tended

variable (h : Contending p requests w) (hr : requests[i]? = some (r, mode)) (hown : w.Owns i k)
variable (hw : w.Tended p.issuance.settings.callTimeout i k) (step : Stride p.program w u)

include h hw in
/-- Who removes a record of a slot was sent when none was made there any more. -/
theorem past_of_removal {handle : DnsHandle} (here : w.strands[j]? = some s) (hrun : s.run = i)
    (hjob : s.job = some (.deprovision handle)) (hkey : handle.key = k) :
    w.Past p.issuance.settings.callTimeout i k := by
  have hsought := h.sought here hjob
  rw [hkey, hrun] at hsought
  exact (hw.looked _ hsought).1

include h hown hw in
/-- Who is at a slot to remove its record. -/
theorem removal_of_errand {e : Errand} (here : w.strands[j]? = some s) (hat : w.errand j = e)
    (hkey : e.key? = some k) (hsuits : e.Suits s.job → ∃ handle : DnsHandle,
      s.job = some (.deprovision handle) ∧ k = handle.key) : ∃ handle : DnsHandle, s.run = i ∧
        s.job = some (.deprovision handle) ∧ handle.key = k ∧
        w.Past p.issuance.settings.callTimeout i k := by
  obtain ⟨handle, hjob, hk⟩ := hsuits (hat ▸ h.suits here)
  have hrun := hown.run h.rooted here (hat ▸ hkey)
  exact ⟨handle, hrun, hjob, hk.symm, h.past_of_removal hw here hrun hjob hk.symm⟩

include h hr hown hw step in
theorem relies_step (hrelies : (u.errand j).Relies k c) :
    u.slots.index.lookup k = some c ∨
      u.Past p.issuance.settings.callTimeout i k ∧ u.Gone i k := by
  have hvisit := h.visit step
  have hkeep : ∀ n, (w.errand n).Relies k c → u.slots.index.lookup k = some c ∨
      u.Past p.issuance.settings.callTimeout i k ∧ u.Gone i k := by
    intro n hn
    obtain hlook | ⟨hpast, hgone⟩ := hw.relies n c hn
    · cases hvisit.keyChange k with
      | same hsame => exact .inl (hsame.trans hlook)
      | new _ before => cases before.symm.trans hlook
      | @discarded m d t change _ before single =>
        -- the key is given up by the last user of the cell
        cases before.symm.trans hlook
        have hm : w.errand m = .failed k c := change.may
        obtain rfl := h.tallied.eq_of_users single (by rw [hm]; rfl) hn.cell
        rw [hm] at hn
        exact hn.elim
      | @removed m t change =>
        obtain ⟨d, hm⟩ := change.may
        obtain ⟨handle, hrun, hjob, hkey, hpast⟩ := h.removal_of_errand hown hw change.here hm rfl id
        have hgone := hw.gone m t handle change.here hrun hjob hkey (by rw [hm]; trivial)
        exact .inr ⟨h.past_step hr hown step hpast, h.gone_step step hpast hgone⟩
    · exact .inr ⟨h.past_step hr hown step hpast, h.gone_step step hpast hgone⟩
  cases hvisit.comes j with
  | same errand => exact hkeep j (errand ▸ hrelies)
  | moved change _ moves =>
    obtain hold | heq | heq := moves.relies hrelies
    · exact hkeep j hold
    · cases heq
      have hslots : u.slots = (w.slots.obtain k none).2 := (change.slots hvisit).1
      have hfits : c = (w.slots.obtain k none).1 := change.tells
      rw [hslots, MutexTable.lookup_obtain_self, hfits]
      exact .inl rfl
    · cases heq
      have hslots : u.slots = (w.slots.find k).2 := (change.slots hvisit).1
      have hfits : some c = (w.slots.find k).1 := change.tells
      rw [hslots, MutexTable.index_find, ← MutexTable.fst_find]
      exact .inl hfits.symm
  | passed _ _ after =>
    rw [after] at hrelies
    exact hrelies.elim
  | @begun n d t t' name value before _ after =>
    rw [after] at hrelies
    exact hkeep n (by rw [before]; exact hrelies)

include h step in
/-- A slot remembers what it did, or a job has just told it of the record that it made. -/
theorem record_cases {id : String} (hk : u.keyOf c = some k) (hid : u.recordIn c = some id) :
    (w.keyOf c = some k ∧ w.recordIn c = some id) ∨ ∃ n id', w.errand n = .made k c id' ∧
      u.slots.index.lookup k = w.slots.index.lookup k := by
  have hvisit := h.visit step
  obtain ⟨es, hlog⟩ := hvisit.log
  have hsame : w.recordIn c = some id → w.keyOf c = some k ∧ w.recordIn c = some id := by
    intro hold
    obtain ⟨l, hl, -⟩ := h.recorded.value c id hold
    cases hk.symm.trans (keyOf_mono hlog hl)
    exact ⟨hl, hold⟩
  obtain hrecords | ⟨n, t, d, v, change, -, -, hput⟩ := hvisit.records h.keyed
  · exact .inl (hsame ((hrecords c).symm.trans hid))
  · rw [hput] at hid
    split at hid
    · rename_i hd
      subst hd
      obtain ⟨l, id', hmade, -⟩ | ⟨_, -, rfl⟩ := change.may
      · cases hk.symm.trans (keyOf_mono hlog (h.keyed.key n l d (by rw [hmade]; rfl)
          (by rw [hmade]; rfl)))
        refine .inr ⟨n, id', hmade, ?_⟩
        rw [(change.slots hvisit).1]
        rfl
      · cases hid
    · exact .inl (hsame hid)

include h hown hw step in
/-- Who gives up a key does not lose a record. -/
theorem lookup_of_record {id : String} (hfree : ¬ w.Contested i k) (hk : w.keyOf c = some k)
    (hid : w.recordIn c = some id) : u.slots.index.lookup k = some c := by
  have hlook := hw.leads c id hk hid
  cases (h.visit step).keyChange k with
  | same hsame => exact hsame.trans hlook
  | new _ before => cases before.symm.trans hlook
  | @discarded m d t change runs before =>
    cases before.symm.trans hlook
    cases (h.recordIn_of_failed hown hfree change.may).symm.trans hid
  | @removed m t change =>
    obtain ⟨d, hm⟩ := change.may
    cases (hw.cleared m d c (.inr hm) hk).symm.trans hid

include h hown hw step in
theorem leads_step {id : String} (hfree : ¬ w.Contested i k) (hk : u.keyOf c = some k)
    (hid : u.recordIn c = some id) : u.slots.index.lookup k = some c := by
  obtain ⟨hk, hid⟩ | ⟨n, id', hmade, hindex⟩ := h.record_cases step hk hid
  · exact h.lookup_of_record hown hw step hfree hk hid
  · -- the key leads to the slot of the job that made the record, and to no other
    obtain hlook | ⟨hpast, -⟩ := hw.relies n c (by rw [hmade]; exact ⟨rfl, rfl⟩)
    · exact hindex.trans hlook
    · exact absurd (show (w.errand n).IsBusy k by rw [hmade]; rfl) (hpast.unbusy n)

include h hown hw step in
theorem known_step {h' : DnsHandle} (hh : h' ∈ remaining u.log i) (hkey : h'.key = k) :
    (∃ j c, u.errand j = .made k c h'.id) ∨ ∃ c, u.keyOf c = some k ∧ u.recordIn c = some h'.id := by
  have hvisit := h.visit step
  obtain ⟨es, hlog⟩ := hvisit.log
  obtain hold | ⟨n, t, time, change, -⟩ := hvisit.remaining_cases hh
  · obtain ⟨j, c, hat⟩ | ⟨c, hk, hid⟩ := hw.known h' hold hkey
    · -- the job tells the slot of the record that it made
      cases hvisit.comes j with
      | same errand => exact .inl ⟨j, c, errand.trans hat⟩
      | moved change _ moves =>
        have hkeyOf := h.keyed.key j k c (by rw [hat]; rfl) (by rw [hat]; rfl)
        have hcell := h.keyed.cell j c (by rw [hat]; rfl)
        rw [hat] at moves
        generalize hafter : u.errand j = e' at moves
        cases moves with
        | stay => exact .inl ⟨j, c, hafter⟩
        | find isIdle => cases isIdle
        | miss isIdle => cases isIdle
        | delete _ knows => obtain knows | knows := knows <;> cases knows
        | refuse _ knows => obtain knows | knows := knows <;> cases knows
        | keep =>
          refine .inr ⟨c, keyOf_mono hlog hkeyOf, ?_⟩
          have hput : u.slots = w.slots.put c (some h'.id) := (change.slots hvisit).1
          rw [recordIn, hput, MutexTable.value?_put hcell, if_pos rfl]
          rfl
      | passed _ before => cases hat.symm.trans before
      | begun _ new =>
        have hbusy : w.errand j ≠ .blank := by
          rw [hat]
          exact Errand.noConfusion
        obtain ⟨t, ht⟩ := h.exists_here hbusy
        exact absurd (lt_of_here ht) (Nat.not_lt.mpr (Nat.le_of_eq new.symm))
    · obtain hrecords | ⟨n, t, d, v, change, -, hruns, hput⟩ := hvisit.records h.keyed
      · exact .inr ⟨c, keyOf_mono hlog hk, (hrecords c).trans hid⟩
      · by_cases hd : d = c
        · subst hd
          obtain ⟨l, id', hmade, -⟩ | ⟨l, hdeleted, -⟩ := change.may
          · have hnone := h.aware n d none (by rw [hmade]; rfl) (by rw [hmade]; rfl)
            cases hnone.symm.trans hid
          · cases hk.symm.trans (h.keyed.key n l d (by rw [hdeleted]; rfl) (by rw [hdeleted]; rfl))
            obtain ⟨handle, hrun, hjob, hkey', -⟩ :=
              h.removal_of_errand hown hw change.here hdeleted rfl id
            exact absurd hkey (hw.gone n t handle change.here hrun hjob hkey'
              (by rw [hdeleted]; trivial) h' hold)
        · refine .inr ⟨c, keyOf_mono hlog hk, ?_⟩
          rw [hput, if_neg hd]
          exact hid
  · obtain ⟨c, -, hat⟩ := change.may
    refine .inl ⟨n, c, ?_⟩
    rw [change.errand, hat, ← hkey]
    rfl

include h hw step in
theorem single_step :
    (remaining u.log i).Pairwise fun h h' => ¬ (h.key = k ∧ h'.key = k) := by
  have hchange : ∀ {j : Nat} {s : Strand Issued} {a : Act} {answer : a.Answer},
      w.Changes u j s a answer →
      (remaining u.log i).Pairwise fun h h' => ¬ (h.key = k ∧ h'.key = k) := by
    intro j s a answer change
    rw [change.remaining, Event.leave]
    refine List.pairwise_append.mpr ⟨hw.single.filter _, ?_, ?_⟩
    · split
      · cases Event.made? ⟨j, s.run, a, answer⟩ with
        | none => exact .nil
        | some h => exact List.pairwise_singleton _ _
      · exact .nil
    · rintro h₁ hh₁ h₂ hh₂ ⟨hkey₁, hkey₂⟩
      have hold := (List.mem_filter.mp hh₁).1
      split at hh₂
      · replace hh₂ : Event.made? ⟨j, s.run, a, answer⟩ = some h₂ := by simpa using hh₂
        unfold Event.made? at hh₂
        split at hh₂
        · rename_i heq
          cases heq
          cases hh₂
          obtain ⟨c, -, hat⟩ := change.may
          exact hw.gone_of_making h.guarded h.aware (hat.trans (congrArg (Errand.making · c) hkey₂)) h₁
            hold hkey₁
        · cases hh₂
      · cases hh₂
  cases h.visit step with
  | calm _ _ _ log | enter _ _ _ _ _ _ _ _ log => exact log ▸ hw.single
  | got change | gaveUp change | refused change | act change | spawn change | other change =>
    exact hchange change

/-- A step on the table makes no record. -/
theorem remaining_of_slots {a : TableAct SlotKey (Option String)} {answer : a.Answer}
    (change : w.Changes u j s (.slots a) answer) {h' : DnsHandle} (hh : h' ∈ remaining u.log i) :
    h' ∈ remaining w.log i := by
  rw [change.remaining, Event.mem_leave] at hh
  obtain ⟨hold, -⟩ | ⟨-, hmade⟩ := hh
  · exact hold
  · cases hmade

include h hr hown hw step in
theorem looked_step {v : Option String}
    (hv : (k, v) ∈ (u.standing p.issuance.settings.callTimeout i).looked) :
    u.Past p.issuance.settings.callTimeout i k ∧ (v = none → u.Gone i k) := by
  have hvisit := h.visit step
  obtain ⟨m, hm, hmain, -⟩ := h.main_here hr
  replace hm : w.strands[i]? = some m := hm
  obtain ⟨m', hm', hmjob, -⟩ := step.turn.same hm
  have hkeep : (k, v) ∈ (w.standing p.issuance.settings.callTimeout i).looked →
      u.Past p.issuance.settings.callTimeout i k ∧ (v = none → u.Gone i k) := by
    intro hold
    obtain ⟨hpast, hgone⟩ := hw.looked v hold
    exact ⟨h.past_step hr hown step hpast, fun hv => h.gone_step step hpast (hgone hv)⟩
  have hlooked : (u.standing p.issuance.settings.callTimeout i).looked ≠ [] := List.ne_nil_of_mem hv
  obtain hsame | ⟨a, answer, change, hslots, hnote⟩ := hvisit.journal_cases hm
    (by rw [job?_of_here hm', job?_of_here hm, hmjob]) p.issuance.settings.callTimeout
  · rw [standing, hsame] at hv
    exact hkeep hv
  · have hnew := hv
    rw [standing, hnote] at hnew
    -- nothing but the errand of the run changes when it looks at a slot
    have hunbusy : w.Apart u i → (∀ j, ¬ (w.errand j).IsBusy k) → ¬ (u.errand i).IsBusy k →
        ∀ j, ¬ (u.errand j).IsBusy k := by
      intro apart hold hself j
      by_cases hj : j = i
      · exact hj ▸ hself
      · rw [apart j hj]
        exact hold j
    obtain hold | ⟨l, heq, hkv⟩ | ⟨l, c, d, v', heq, hheld, hkv⟩ := Standing.looked_note hnew
    · exact hkeep hold
    · cases hkv
      cases heq
      have hfits : none = (w.slots.find k).1 := change.tells
      have hlost : w.slots.index.lookup k = none := MutexTable.fst_find.symm.trans hfits.symm
      obtain ⟨hold, hgone⟩ := hw.of_lost hlost
      refine ⟨⟨hlooked, hunbusy (hslots _ rfl).2 hold ?_⟩, fun _ h' hh =>
        hgone h' (remaining_of_slots change hh)⟩
      rw [change.errand]
      exact id
    · cases hkv
      cases heq
      rw [errand_journal] at hheld
      obtain ⟨l, hat⟩ := change.may
      cases hheld.symm.trans hat
      have hvalue : v' = w.slots.value? c := change.tells
      refine ⟨⟨hlooked, hunbusy (hslots _ rfl).2 (hw.unbusy_of_held h.guarded hheld) ?_⟩,
        fun hnone h' hh => ?_⟩
      · rw [change.errand, hheld]
        exact id
      · refine hw.gone_of_held h.guarded hheld ?_ h' (remaining_of_slots change hh)
        rw [recordIn, ← hvalue, hnone]

include h step in
/-- Where no record is made any more, slots come to remember none. -/
theorem record_of_past {id : String} (hpast : w.Past p.issuance.settings.callTimeout i k)
    (hk : u.keyOf d = some k) (hid : u.recordIn d = some id) :
    w.keyOf d = some k ∧ w.recordIn d = some id := by
  obtain hold | ⟨n, id', hmade, -⟩ := h.record_cases step hk hid
  · exact hold
  · exact absurd (show (w.errand n).IsBusy k by rw [hmade]; rfl) (hpast.unbusy n)

include h in
/-- Who has looked into a slot, or was refused its record, knows of that record. -/
theorem record_of_knows {id : String}
    (knows : w.errand j = .seen k c (some id) ∨ w.errand j = .refused k c id) :
    w.keyOf c = some k ∧ w.recordIn c = some id := by
  obtain hat | hat := knows
  · exact ⟨h.keyed.key j k c (by rw [hat]; rfl) (by rw [hat]; rfl),
      h.aware j c (some id) (by rw [hat]; rfl) (by rw [hat]; rfl)⟩
  · exact ⟨h.keyed.key j k c (by rw [hat]; rfl) (by rw [hat]; rfl),
      h.aware j c (some id) (by rw [hat]; rfl) (by rw [hat]; rfl)⟩

include h hw in
/-- Who deletes the record that the slot remembers leaves none. -/
theorem gone_of_deletion {handle : DnsHandle} {id : String} (hkey : handle.key = k)
    (hpast : w.Past p.issuance.settings.callTimeout i k)
    (knows : w.errand j = .seen k c (some id) ∨ w.errand j = .refused k c id)
    (change : w.Changes u j s (.dns (.delete handle.name id)) (.ok ())) : u.Gone i k := by
  intro h' hh hkey'
  rw [change.remaining, Event.mem_leave] at hh
  obtain ⟨hold, hdeletes⟩ | ⟨-, hmade⟩ := hh
  · obtain ⟨hk, hid⟩ := h.record_of_knows knows
    obtain rfl := hw.id_of_record hpast.unbusy hk hid hold hkey'
    have hcalled := DnsHandle.isCalled_of_key (hkey'.trans hkey.symm)
    cases hdeletes.symm.trans hcalled
  · cases hmade

include h hw step in
/-- Whoever has removed a record, or found that there is none, leaves none. -/
theorem removed_step {handle : DnsHandle} (here : u.strands[j]? = some s) (hrun : s.run = i)
    (hjob : s.job = some (.deprovision handle)) (hkey : handle.key = k)
    (hat : (u.errand j).HasRemoved) : u.Gone i k := by
  have hvisit := h.visit step
  have hkeep : (w.errand j).HasRemoved → u.Gone i k := by
    intro hold
    obtain ⟨t, ht⟩ := h.exists_here (j := j) (by intro hb; rw [hb] at hold; exact hold)
    obtain ⟨t', ht', htjob, -, htrun⟩ := step.turn.same ht
    cases here.symm.trans ht'
    have hpast := h.past_of_removal hw ht (htrun.symm.trans hrun) (htjob.symm.trans hjob) hkey
    exact h.gone_step step hpast
      (hw.gone j t handle ht (htrun.symm.trans hrun) (htjob.symm.trans hjob) hkey hold)
  cases hvisit.comes j with
  | same errand => exact hkeep (errand ▸ hat)
  | @moved t a answer change _ moves =>
    obtain ⟨t', ht', htjob, -, htrun⟩ := step.turn.same change.here
    cases here.symm.trans ht'
    rw [hjob] at htjob
    have hpast := h.past_of_removal hw change.here (htrun.symm.trans hrun) htjob.symm hkey
    have hsuits := h.suits change.here
    rw [← htjob] at moves hsuits
    generalize hbefore : w.errand j = e at moves hsuits hkeep
    generalize hafter : u.errand j = e' at moves hat
    cases moves with
    | stay => exact hkeep hat
    | miss _ isJob =>
      obtain hnone | ⟨handle', heq, rfl⟩ := isJob
      · cases hnone
      · cases heq
        have hfits : none = (w.slots.find handle.key).1 := change.tells
        rw [hkey] at hfits
        have hlost : w.slots.index.lookup k = none := MutexTable.fst_find.symm.trans hfits.symm
        exact fun h' hh => (hw.of_lost hlost).2 h' (remaining_of_slots change hh)
    | @look l c v =>
      have hl : l = k := by
        obtain hnone | ⟨_, heq, ⟨_, _, rfl, -⟩ | ⟨handle', rfl, hl⟩⟩ := hsuits
        · cases hnone
        · cases heq
        · cases heq
          exact hl.trans hkey
      subst hl
      have hvalue : v = w.slots.value? c := change.tells
      have hempty : w.recordIn c = none := by
        rw [recordIn, ← hvalue]
        cases hv : v.join with
        | none => rfl
        | some id =>
          rw [hv] at hat
          exact hat.elim
      exact fun h' hh =>
        hw.gone_of_held h.guarded hbefore hempty h' (remaining_of_slots change hh)
    | delete isJob knows =>
      cases isJob
      rw [← hbefore, hkey] at knows
      exact h.gone_of_deletion hw hkey hpast knows change
    | deleteLost => exact hkeep trivial
    | clear => exact hkeep trivial
    | @leaveSeen l c v may =>
      obtain ⟨-, rfl⟩ := may
      exact hkeep trivial
    | leaveKept =>
      obtain ⟨_, _, hcreate, -⟩ := hsuits
      cases hcreate
    | succeed =>
      obtain ⟨_, _, hprovision, -⟩ := hsuits
      cases hprovision
    | leaveCleared => exact hkeep trivial
    | remove => exact hkeep trivial
    | @release c isDone =>
      cases isDone with
      | false => exact hat.elim
      | true => exact hkeep trivial
    | _ => exact hat.elim
  | passed _ _ after =>
    rw [after] at hat
    exact hat.elim
  | begun _ _ after =>
    rw [after] at hat
    exact hat.elim

include h hown hw step in
theorem deleted_step {id : String} (hat : u.errand j = .deleted k c) (hk : u.keyOf d = some k)
    (hid : u.recordIn d = some id) : d = c := by
  have hvisit := h.visit step
  have hpast : ∀ {t : Strand Issued} {e : Errand}, w.strands[j]? = some t → w.errand j = e →
      e.key? = some k → (e.Suits t.job → ∃ handle : DnsHandle,
        t.job = some (.deprovision handle) ∧ k = handle.key) →
      w.keyOf d = some k ∧ w.recordIn d = some id := by
    intro t e ht he hkey hsuits
    obtain ⟨_, _, _, _, hpast⟩ := h.removal_of_errand hown hw ht he hkey hsuits
    exact h.record_of_past step hpast hk hid
  have hkeep : w.errand j = .deleted k c → d = c := by
    intro hold
    obtain ⟨t, ht⟩ := h.exists_here (j := j) (by rw [hold]; nofun)
    obtain ⟨hk', hid'⟩ := hpast ht hold rfl fun hsuits => hsuits
    exact hw.deleted j c d id hold hk' hid'
  cases hvisit.comes j with
  | same errand => exact hkeep (errand.symm.trans hat)
  | moved change _ moves =>
    have hhere := change.here
    generalize hbefore : w.errand j = e at moves
    rw [hat] at moves
    cases moves with
    | stay => exact hkeep hbefore
    | @delete handle _ id' _ isJob knows =>
      -- the key leads to the slot whose record is deleted
      obtain ⟨hk', hid'⟩ := hpast hhere hbefore (by obtain rfl | rfl := knows <;> rfl)
        fun _ => ⟨handle, isJob, rfl⟩
      rw [← hbefore] at knows
      obtain ⟨hcell, hknown⟩ := h.record_of_knows knows
      have hlook := hw.leads c id' hcell hknown
      cases hlook.symm.trans (hw.leads d id hk' hid')
      rfl
  | passed _ _ after => cases hat.symm.trans after
  | begun _ _ after => cases hat.symm.trans after

include h hown hw step in
theorem cleared_step (hat : u.errand j = .cleared k c ∨ u.errand j = .leaving k c)
    (hk : u.keyOf d = some k) : u.recordIn d = none := by
  have hvisit := h.visit step
  have hpast : ∀ {t : Strand Issued} {e : Errand} {id : String}, w.strands[j]? = some t →
      w.errand j = e → e.key? = some k → (e.Suits t.job → ∃ handle : DnsHandle,
        t.job = some (.deprovision handle) ∧ k = handle.key) → u.recordIn d = some id →
      w.keyOf d = some k ∧ w.recordIn d = some id := by
    intro t e id ht he hkey hsuits hid
    obtain ⟨_, _, _, _, hpast⟩ := h.removal_of_errand hown hw ht he hkey hsuits
    exact h.record_of_past step hpast hk hid
  have hkeep : w.errand j = .cleared k c ∨ w.errand j = .leaving k c → u.recordIn d = none := by
    intro hold
    obtain ⟨t, ht⟩ := h.exists_here (j := j) (by obtain hold | hold := hold <;> rw [hold] <;> nofun)
    cases hid : u.recordIn d with
    | none => rfl
    | some id =>
      have hbefore : w.keyOf d = some k ∧ w.recordIn d = some id := by
        obtain hold | hold := hold <;> exact hpast ht hold rfl (fun hsuits => hsuits) hid
      cases (hw.cleared j c d hold hbefore.1).symm.trans hbefore.2
  cases hvisit.comes j with
  | same errand => exact hkeep (errand ▸ hat)
  | moved change _ moves =>
    have hhere := change.here
    have hcell := h.keyed.cell j
    generalize hbefore : w.errand j = e at moves hcell
    generalize hafter : u.errand j = e' at moves hat
    obtain rfl | rfl := hat
    · cases moves with
      | stay => exact hkeep (.inl hbefore)
      | clear =>
        cases hid : u.recordIn d with
        | none => rfl
        | some id =>
          obtain ⟨hk', hid'⟩ := hpast hhere hbefore rfl (fun hsuits => hsuits) hid
          obtain rfl := hw.deleted j c d id hbefore hk' hid'
          have hput : u.slots = w.slots.put d none := (change.slots hvisit).1
          rw [recordIn, hput, MutexTable.value?_put (hcell d rfl), if_pos rfl] at hid
          cases hid
    · cases moves with
      | stay => exact hkeep (.inr hbefore)
      | leaveCleared => exact hkeep (.inl hbefore)
  | passed _ _ after => rw [after] at hat; obtain hat | hat := hat <;> cases hat
  | begun _ _ after => rw [after] at hat; obtain hat | hat := hat <;> cases hat

include h hown hw step in
theorem refused_step {id : String} (hat : u.errand j = .refused k c id) {h' : DnsHandle}
    (hkey : h'.key = k) (hid : h'.id = id) : ∃ e ∈ u.log, e.run = i ∧ e.refuses h' = true := by
  have hvisit := h.visit step
  obtain ⟨es, hlog⟩ := hvisit.log
  have hkeep : w.errand j = .refused k c id → ∃ e ∈ u.log, e.run = i ∧ e.refuses h' = true := by
    intro hold
    obtain ⟨e, he, hevent⟩ := hw.refused j c id hold h' hkey hid
    exact ⟨e, hlog ▸ List.mem_append_left _ he, hevent⟩
  cases hvisit.comes j with
  | same errand => exact hkeep (errand.symm.trans hat)
  | @moved t a answer change _ moves =>
    have hrun := hown.run h.rooted change.here
    have hevent : (⟨j, t.run, a, answer⟩ : Event) ∈ u.log := by
      rw [change.log]
      exact List.mem_append_right _ (List.mem_singleton_self _)
    generalize hbefore : w.errand j = e at moves hrun
    rw [hat] at moves
    cases moves with
    | stay => exact hkeep hbefore
    | @refuse handle _ _ _ error isJob knows =>
      subst hid
      exact ⟨_, hevent, hrun (by obtain rfl | rfl := knows <;> rfl),
        DnsHandle.isCalled_of_key hkey⟩
  | passed _ _ after => cases hat.symm.trans after
  | begun _ _ after => cases hat.symm.trans after

include h hw step in
theorem spared_step {handle : DnsHandle} (here : u.strands[j]? = some s) (hrun : s.run = i)
    (hjob : s.job = some (.deprovision handle)) (hkey : handle.key = k)
    (hat : (u.errand j).HasFailed) {h' : DnsHandle} (hh : h' ∈ remaining u.log i)
    (hkey' : h'.key = k) : ∃ e ∈ u.log, e.run = i ∧ e.refuses h' = true := by
  have hvisit := h.visit step
  obtain ⟨es, hlog⟩ := hvisit.log
  have hgrows : (∃ e ∈ w.log, e.run = i ∧ e.refuses h' = true) →
      ∃ e ∈ u.log, e.run = i ∧ e.refuses h' = true :=
    fun ⟨e, he, hevent⟩ => ⟨e, hlog ▸ List.mem_append_left _ he, hevent⟩
  have hkeep : (w.errand j).HasFailed → ∃ e ∈ u.log, e.run = i ∧ e.refuses h' = true := by
    intro hold
    obtain ⟨t, ht⟩ := h.exists_here (j := j) (by intro hb; rw [hb] at hold; exact hold)
    obtain ⟨t', ht', htjob, -, htrun⟩ := step.turn.same ht
    cases here.symm.trans ht'
    have hpast := h.past_of_removal hw ht (htrun.symm.trans hrun) (htjob.symm.trans hjob) hkey
    exact hgrows (hw.failed j t handle ht (htrun.symm.trans hrun) (htjob.symm.trans hjob) hkey hold
      h' (h.remaining_of_past step hpast hh hkey') hkey')
  cases hvisit.comes j with
  | same errand => exact hkeep (errand ▸ hat)
  | @moved t a answer change _ moves =>
    obtain ⟨t', ht', htjob, -, htrun⟩ := step.turn.same change.here
    cases here.symm.trans ht'
    rw [hjob] at htjob
    have hpast := h.past_of_removal hw change.here (htrun.symm.trans hrun) htjob.symm hkey
    have hold := h.remaining_of_past step hpast hh hkey'
    have hsuits := h.suits change.here
    have hgone := hw.gone j t handle change.here (htrun.symm.trans hrun) htjob.symm hkey
    have hmay := change.may
    rw [← htjob] at moves hsuits hmay
    generalize hbefore : w.errand j = e at moves hsuits hkeep hgone hmay
    generalize hafter : u.errand j = e' at moves hat
    cases moves with
    | stay => exact hkeep hat
    | giveUp =>
      -- nobody gives up on a slot but who was sent for a record
      have hwatch := Act.canGet_wait_none.mp change.possible
      obtain ⟨_, _, hprovision⟩ := hmay.2 hwatch
      cases hprovision
    | abandon | discard =>
      obtain ⟨_, _, hprovision, -⟩ := hsuits
      cases hprovision
    | leaveUnmade =>
      obtain ⟨_, _, hcreate, -⟩ := hsuits
      cases hcreate
    | @leaveRefused l c id =>
      obtain ⟨handle', heq, rfl⟩ := hsuits
      cases heq
      subst hkey
      obtain ⟨hk, hid⟩ := h.record_of_knows (.inr hbefore)
      exact hgrows (hw.refused j c id hbefore h' hkey'
        (hw.id_of_record hpast.unbusy hk hid hold hkey'))
    | deleteLost => exact absurd hkey' (hgone trivial h' hold)
    | @release c isDone =>
      cases isDone with
      | false => exact hkeep trivial
      | true => exact hat.elim
    | _ => exact hat.elim
  | passed _ _ after =>
    rw [after] at hat
    exact hat.elim
  | begun _ _ after =>
    rw [after] at hat
    exact hat.elim

end Tended

/-- **Slots are tended**: what a run left of a slot to which no other run goes is within reach, unless
its record is contested. -/
theorem tended (h : Contending p requests w) (hr : requests[i]? = some (r, mode))
    (hown : w.Owns i k) (hfree : ¬ w.Contested i k) : w.Tended p.issuance.settings.callTimeout i k := by
  unfold Contending at h
  induction h with
  | refl =>
    have hblank : ∀ (ps : List (Steward Issued)) j, (Weave.start ps).errand j = .blank :=
      fun _ _ => errand_start
    have hnil : ∀ ps : List (Steward Issued), remaining (Weave.start ps).log i = [] := fun _ => rfl
    constructor
    · intro j c hj
      rw [hblank] at hj
      exact hj.elim
    · intro c id _ hid
      cases hid
    · rw [hnil]
      simp
    · rw [hnil]
      exact .nil
    · intro v hv
      cases hv
    · intro j s h here _ hjob
      obtain ⟨q, -, rfl⟩ := start_here here
      cases hjob
    · intro j c d id hj
      rw [hblank] at hj
      cases hj
    · intro j c d hj
      rw [hblank] at hj
      obtain hj | hj := hj <;> cases hj
    · intro j c id hj
      rw [hblank] at hj
      cases hj
    · intro j s h here _ hjob
      obtain ⟨q, -, rfl⟩ := start_here here
      cases hjob
  | @step v u reach step ih =>
    have hv : Contending p requests v := reach
    obtain ⟨es, hlog⟩ : ∃ es, u.log = v.log ++ es := (hv.visit step).log
    have hownv : v.Owns i k := hown.of_log hlog
    have hfreev : ¬ v.Contested i k := fun hv => hfree (hv.turn step.turn hlog)
    have ih := ih hownv hfreev
    exact {
      relies j c := hv.relies_step hr hownv ih step
      leads c id := hv.leads_step hownv ih step hfreev
      known h hh := hv.known_step hownv ih step hh
      single := hv.single_step ih step
      looked v := hv.looked_step hr hownv ih step
      gone j s h := hv.removed_step ih step
      deleted j c d id := hv.deleted_step hownv ih step
      cleared j c d := hv.cleared_step hownv ih step
      refused j c id hat h := hv.refused_step hownv ih step hat
      failed j s h here hrun hjob hkey hat h' := hv.spared_step ih step here hrun hjob hkey hat }

end Contending

end CertSteward
