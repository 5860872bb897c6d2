import CertSteward.Proofs.Dns.Cells

/-!
# Who uses a slot

A cell counts its users, and a key is given up only by a strand that believes itself to be the last
of them. The count is never too small: for every strand that uses a cell, and for a strand that uses
it on behalf of another one too, there is a user. So a cell that is used by two strands has two users
at least.

Next to it stands where a strand has its key from: it went to the slot itself, or a strand of its run
did that passed the slot on.

## Main definitions

* `Act.slotKey?` — the key of the slot that a request leads to
* `Weave.Tallied` — cells have as many users as there are strands that use them
* `Weave.Rooted` — strands have their keys from their runs

## Main results

* `Contending.tallied`, `Contending.rooted`
-/

namespace CertSteward

namespace Errand

variable {job : Option Job} {e e' : Errand} {a : Act} {answer : a.Answer} {c d i : Nat}

theorem uses_of_cell? (h : e.cell? = none) : e.uses d = 0 := by
  unfold uses
  rw [h]
  exact if_neg nofun

theorem uses_pos (h : e.cell? = some c) : 1 ≤ e.uses c := by
  unfold uses
  rw [if_pos h]
  cases e with
  | sharing => exact Nat.le_succ 1
  | _ => exact Nat.le_refl 1

theorem uses_le_one (h : e.cell? = some c) (hshare : ∀ k, e ≠ .sharing k c) :
    e.uses d ≤ if c = d then 1 else 0 := by
  unfold uses
  rw [h]
  by_cases hd : c = d
  · subst hd
    rw [if_pos rfl, if_pos rfl]
    cases e with
    | sharing k x =>
      cases h
      exact absurd rfl (hshare k)
    | _ => exact Nat.le_refl 1
  · rw [if_neg fun h => hd (Option.some.inj h)]
    exact Nat.zero_le _

theorem uses_sharing (k : SlotKey) : (sharing k c).uses d =
    (seen k c none).uses d + if c = d then 1 else 0 := by
  by_cases hd : c = d <;> simp [uses, cell?, hd]

/-- Nobody uses a cell more than before unless he comes to it, or uses it for another strand. -/
theorem Moves.uses_le (h : Moves job e a answer e') (hlead : ¬ a.LeadsToCell)
    (hshare : ∀ c, a ≠ .slots (.share c)) (d : Nat) : e'.uses d ≤ e.uses d := by
  cases h with
  | obtain | find | miss => exact absurd trivial hlead
  | share => exact absurd rfl (hshare _)
  | pass => exact Nat.le_trans (uses_le_one (c := _) rfl nofun) (by
      rename_i c _
      by_cases hd : c = d
      · rw [if_pos hd, ← hd]
        exact uses_pos rfl
      · rw [if_neg hd]
        exact Nat.zero_le _)
  | delete _ knows => obtain rfl | rfl := knows <;> exact Nat.le_refl _
  | refuse _ knows => obtain rfl | rfl := knows <;> exact Nat.le_refl _
  | deleteLost | release => exact Nat.zero_le _
  | _ => exact Nat.le_refl _

end Errand

namespace Weave

/-- Cells have as many users as there are strands that use them. -/
def Tallied (w : Weave Issued) : Prop :=
  ∀ c, ∃ l : List Nat, l.length ≤ w.slots.users c ∧ ∀ i, (w.errand i).uses c ≤ l.count i

variable {w u : Weave Issued} {i j c : Nat} {k : SlotKey}

/-- A cell with one user is not used by two strands. -/
theorem Tallied.eq_of_users (hw : w.Tallied) (h : w.slots.users c ≤ 1)
    (hi : (w.errand i).cell? = some c) (hj : (w.errand j).cell? = some c) : i = j := by
  obtain ⟨l, hlen, huses⟩ := hw c
  have hcount : ∀ {n}, (w.errand n).cell? = some c → n ∈ l := fun hn =>
    List.count_pos_iff.mp (Nat.lt_of_lt_of_le (Errand.uses_pos hn) (huses _))
  match l, Nat.le_trans hlen h with
  | [], _ => cases hcount hi
  | [x], _ => rw [List.mem_singleton.mp (hcount hi), List.mem_singleton.mp (hcount hj)]

/-- Nobody uses a cell more than before. -/
theorem Tallied.of_le (hw : w.Tallied) (users : ∀ c, u.slots.users c = w.slots.users c)
    (uses : ∀ i c, (u.errand i).uses c ≤ (w.errand i).uses c) : u.Tallied := by
  intro c
  obtain ⟨l, hlen, huses⟩ := hw c
  exact ⟨l, users c ▸ hlen, fun i => Nat.le_trans (uses i c) (huses i)⟩

section Changes

variable {s : Strand Issued} {a : Act} {answer : a.Answer}

theorem Changes.uses_le (h : w.Changes u i s a answer) (apart : w.Apart u i)
    (hlead : ¬ a.LeadsToCell) (hshare : ∀ c, a ≠ .slots (.share c)) (j d : Nat) :
    (u.errand j).uses d ≤ (w.errand j).uses d := by
  by_cases hj : j = i
  · subst hj
    exact h.moves.uses_le hlead hshare d
  · exact Nat.le_of_eq (by rw [apart j hj])

/-- A strand uses a cell once more. -/
theorem Tallied.more (hw : w.Tallied) (apart : w.Apart u i)
    (users : ∀ d, u.slots.users d = w.slots.users d + if c = d then 1 else 0)
    (uses : ∀ d, (u.errand i).uses d ≤ (w.errand i).uses d + if c = d then 1 else 0) :
    u.Tallied := by
  intro d
  obtain ⟨l, hlen, huses⟩ := hw d
  by_cases hd : c = d
  · refine ⟨i :: l, ?_, fun j => ?_⟩
    · rw [users, if_pos hd, List.length_cons]
      exact Nat.succ_le_succ hlen
    · by_cases hj : j = i
      · subst hj
        rw [List.count_cons_self]
        refine Nat.le_trans (uses d) ?_
        rw [if_pos hd]
        exact Nat.succ_le_succ (huses j)
      · rw [apart j hj, List.count_cons_of_ne (Ne.symm hj)]
        exact huses j
  · refine ⟨l, ?_, fun j => ?_⟩
    · rw [users, if_neg hd]
      exact hlen
    · by_cases hj : j = i
      · subst hj
        refine Nat.le_trans (uses d) ?_
        rw [if_neg hd]
        exact huses j
      · rw [apart j hj]
        exact huses j

/-- A strand uses a cell no more. -/
theorem Tallied.less (hw : w.Tallied) (apart : w.Apart u i)
    (users : ∀ d, u.slots.users d = w.slots.users d - if c = d then 1 else 0)
    (before : (w.errand i).cell? = some c) (after : (u.errand i).cell? = none) : u.Tallied := by
  intro d
  obtain ⟨l, hlen, huses⟩ := hw d
  have hnone : (u.errand i).uses d = 0 := Errand.uses_of_cell? after
  by_cases hd : c = d
  · subst hd
    have hmem : i ∈ l :=
      List.count_pos_iff.mp (Nat.lt_of_lt_of_le (Errand.uses_pos before) (huses i))
    refine ⟨l.erase i, ?_, fun j => ?_⟩
    · rw [users, if_pos rfl, List.length_erase_of_mem hmem]
      exact Nat.sub_le_sub_right hlen 1
    · by_cases hj : j = i
      · rw [hj, hnone]
        exact Nat.zero_le _
      · rw [apart j hj, List.count_erase_of_ne hj]
        exact huses j
  · refine ⟨l, ?_, fun j => ?_⟩
    · rw [users, if_neg hd]
      exact hlen
    · by_cases hj : j = i
      · rw [hj, hnone]
        exact Nat.zero_le _
      · rw [apart j hj]
        exact huses j

/-- A strand uses a cell for a job, which uses it from now on. -/
theorem Tallied.pass (hw : w.Tallied) (hn : i ≠ w.strands.length)
    (apart : ∀ j, j ≠ i → j ≠ w.strands.length → u.errand j = w.errand j)
    (before : w.errand i = .sharing k c) (after : ∀ d, (u.errand i).uses d ≤ if c = d then 1 else 0)
    (new : ∀ d, (u.errand w.strands.length).uses d ≤ if c = d then 1 else 0)
    (users : ∀ d, u.slots.users d = w.slots.users d) : u.Tallied := by
  intro d
  obtain ⟨l, hlen, huses⟩ := hw d
  by_cases hd : c = d
  · subst hd
    have htwo : 2 ≤ l.count i := by
      have hi := huses i
      rw [before] at hi
      exact Nat.le_trans (by rw [Errand.uses]; exact if_pos rfl ▸ Nat.le_refl 2) hi
    have hmem : i ∈ l := List.count_pos_iff.mp (Nat.lt_of_lt_of_le Nat.zero_lt_two htwo)
    refine ⟨w.strands.length :: l.erase i, ?_, fun j => ?_⟩
    · rw [users, List.length_cons, List.length_erase_of_mem hmem,
        Nat.sub_add_cancel (List.length_pos_of_mem hmem)]
      exact hlen
    · by_cases hj : j = w.strands.length
      · subst hj
        refine Nat.le_trans (new c) ?_
        rw [if_pos rfl, List.count_cons_self]
        exact Nat.succ_le_succ (Nat.zero_le _)
      · rw [List.count_cons_of_ne (Ne.symm hj)]
        by_cases hji : j = i
        · subst hji
          refine Nat.le_trans (after c) ?_
          rw [if_pos rfl, List.count_erase_self]
          exact Nat.le_sub_of_add_le htwo
        · rw [apart j hji hj, List.count_erase_of_ne hji]
          exact huses j
  · refine ⟨l, (users d).symm ▸ hlen, fun j => ?_⟩
    by_cases hj : j = w.strands.length
    · subst hj
      refine Nat.le_trans (new d) ?_
      rw [if_neg hd]
      exact Nat.zero_le _
    · by_cases hji : j = i
      · subst hji
        refine Nat.le_trans (after d) ?_
        rw [if_neg hd]
        exact Nat.zero_le _
      · rw [apart j hji hj]
        exact huses j

end Changes

theorem Tallied.visit (hw : w.Tallied) (hk : w.Keyed) (h : w.Visit u) : u.Tallied := by
  cases h with
  | calm errand _ slots _ =>
    exact hw.of_le (fun c => by rw [slots]) fun i c => Nat.le_of_eq (by rw [errand])
  | enter _ _ _ errand _ _ _ slots _ =>
    exact hw.of_le (fun c => by rw [slots, MutexTable.users_enter])
      fun i c => Nat.le_of_eq (by rw [errand])
  | got change apart _ _ slots =>
    exact hw.of_le (fun c => by rw [slots]) (change.uses_le apart id nofun)
  | gaveUp change apart _ slots =>
    refine hw.of_le (fun c => ?_) (change.uses_le apart id nofun)
    rw [slots]
    split
    · exact MutexTable.users_withdraw
    · exact MutexTable.users_leave
  | refused change apart _ slots =>
    exact hw.of_le (fun c => by rw [slots]) (change.uses_le apart id nofun)
  | @spawn i c s name value change apart _ _ new _ slots =>
    obtain ⟨d, name', value', hat, hjob⟩ := change.may
    obtain ⟨rfl, rfl, rfl⟩ := Job.createRecord.inj hjob
    refine hw.pass (Nat.ne_of_lt (lt_of_here change.here)) apart hat (fun d => ?_) (fun d => ?_)
      fun d => by rw [slots]
    · rw [change.errand, hat]
      exact Errand.uses_le_one rfl nofun
    · rw [new]
      exact Errand.uses_le_one rfl nofun
  | @other i s a answer change apart _ elsewhere slots =>
    refine hw.of_le (fun c => by rw [slots])
      (change.uses_le apart elsewhere.not_leadsToCell ?_)
    rintro c rfl
    exact elsewhere
  | @act i s a answer change apart _ _ slots =>
    have hsame : ¬ (Act.slots a).LeadsToCell → (∀ c, a ≠ .share c) →
        (∀ d, u.slots.users d = w.slots.users d) → u.Tallied := fun hlead hshare users =>
      hw.of_le users (change.uses_le apart hlead fun c h => hshare c (by cases h; rfl))
    cases a with
    | obtain k =>
      have hslots : u.slots = (w.slots.obtain k none).2 := slots
      have hfits : answer = (w.slots.obtain k none).1 := change.tells
      obtain ⟨hblank, -⟩ := change.may
      refine hw.more (c := answer) apart (fun d => ?_) fun d => ?_
      · rw [hslots, MutexTable.users_obtain fun d hd => hk.lt hd, hfits]
      · rw [change.errand]
        exact Nat.le_trans (Errand.uses_le_one (c := answer) rfl nofun) (Nat.le_add_left _ _)
    | find k =>
      have hslots : u.slots = (w.slots.find k).2 := slots
      have hfits : answer = (w.slots.find k).1 := change.tells
      cases hlook : w.slots.index.lookup k with
      | none =>
        rw [MutexTable.find_of_none hlook] at hslots hfits
        subst hfits
        refine hw.of_le (fun d => by rw [hslots]) fun j d => ?_
        by_cases hj : j = i
        · rw [hj, change.errand]
          exact Nat.zero_le _
        · exact Nat.le_of_eq (by rw [apart j hj])
      | some c =>
        rw [MutexTable.find_of_some hlook] at hslots hfits
        subst hfits
        refine hw.more (c := c) apart (fun d => ?_) fun d => ?_
        · rw [hslots, MutexTable.users_share (hk.lt hlook)]
        · rw [change.errand]
          exact Nat.le_trans (Errand.uses_le_one (c := c) rfl nofun) (Nat.le_add_left _ _)
    | share c =>
      obtain ⟨k, hat, -⟩ := change.may
      refine hw.more (c := c) apart (fun d => ?_) fun d => ?_
      · rw [slots]
        exact MutexTable.users_share (hk.cell i c (by rw [hat]; rfl))
      · rw [change.errand, hat]
        exact Nat.le_of_eq (Errand.uses_sharing k)
    | release c =>
      obtain ⟨isDone, hat⟩ := change.may
      refine hw.less apart (fun d => ?_) (c := c) (by rw [hat]; rfl) ?_
      · rw [slots]
        exact MutexTable.users_release
      · rw [change.errand, hat]
        rfl
    | value c => exact hsame id nofun fun d => by rw [slots]; rfl
    | put c v => exact hsame id nofun fun d => by rw [slots]; exact MutexTable.users_put
    | leave c => exact hsame id nofun fun d => by rw [slots]; exact MutexTable.users_leave
    | discard k c =>
      refine hsame id nofun fun d => ?_
      obtain h | ⟨-, -, h⟩ := MutexTable.discard_cases (t := w.slots) (k := k) (c := c)
      · rw [slots.trans h]
      · rw [slots.trans h]
        rfl
    | remove k => exact hsame id nofun fun d => by rw [slots]; rfl
    | tryEnter | tidy => exact change.may.elim

end Weave

/-! ### Where keys come from -/

/-- The key of the slot that a request leads to. -/
def Act.slotKey? : Act → Option SlotKey
  | .slots (.obtain k) | .slots (.find k) => some k
  | _ => none

theorem Errand.Moves.key?_eq {job : Option Job} {e e' : Errand} {a : Act} {answer : a.Answer}
    {k : SlotKey} (h : Moves job e a answer e') (hk : e'.key? = some k) :
    e.key? = some k ∨ a.slotKey? = some k := by
  cases h with
  | stay => exact .inl hk
  | obtain | find | miss => exact .inr hk
  | delete _ knows | refuse _ knows => obtain rfl | rfl := knows <;> exact .inl hk
  | deleteLost | giveUp | succeed | abandon | leaveSeen | leaveUnmade | leaveKept | leaveRefused
  | discard | remove | release => cases hk
  | _ => exact .inl hk

namespace Weave

/-- Strands have their keys from their runs. -/
def Rooted (w : Weave Issued) : Prop := ∀ (i : Nat) (s : Strand Issued) (k : SlotKey),
  w.strands[i]? = some s → (w.errand i).key? = some k →
    ∃ e ∈ w.log, e.run = s.run ∧ e.act.slotKey? = some k

end Weave

namespace Contending

open Weave

variable {p : RenewalPractice} {requests : List (IssuanceRequest × LockMode)} {w : Weave Issued}

/-- **The users of cells are counted.** -/
theorem tallied (h : Contending p requests w) : w.Tallied := by
  unfold Contending at h
  induction h with
  | refl =>
    refine fun c => ⟨[], Nat.zero_le _, fun i => ?_⟩
    rw [errand_start]
    exact Nat.le_of_eq (Errand.uses_of_cell? rfl)
  | step reach step ih => exact ih.visit (keyed reach) (visit reach step)

/-- **Strands have their keys from their runs.** -/
theorem rooted (h : Contending p requests w) : w.Rooted := by
  unfold Contending at h
  induction h with
  | refl =>
    intro i s k _ hk
    rw [errand_start] at hk
    cases hk
  | @step v u reach step ih =>
    intro i s k here hk
    have hvisit := visit reach step
    obtain ⟨es, hlog⟩ := hvisit.log
    have hold : ∀ {j : Nat} {t : Strand Issued}, v.strands[j]? = some t → t.run = s.run →
        (v.errand j).key? = some k → ∃ e ∈ u.log, e.run = s.run ∧ e.act.slotKey? = some k := by
      intro j t ht hrun hkey
      obtain ⟨e, he, herun, hekey⟩ := ih j t k ht hkey
      exact ⟨e, hlog ▸ List.mem_append_left _ he, herun.trans hrun, hekey⟩
    have hrun : ∀ {t : Strand Issued}, v.strands[i]? = some t → t.run = s.run := by
      intro t ht
      obtain ⟨t', ht', -, -, hrun⟩ := step.turn.same ht
      cases here.symm.trans ht'
      exact hrun.symm
    cases hvisit.comes i with
    | same errand =>
      rw [errand] at hk
      cases ht : v.strands[i]? with
      | some t => exact hold ht (hrun ht) hk
      | none =>
        rw [errand_of_le (numbered_of_strides reach) (List.getElem?_eq_none_iff.mp ht)] at hk
        cases hk
    | @moved t a answer change _ moves =>
      obtain hkey | hkey := moves.key?_eq hk
      · exact hold change.here (hrun change.here) hkey
      · refine ⟨⟨i, t.run, a, answer⟩, ?_, hrun change.here, hkey⟩
        rw [change.log]
        exact List.mem_append_right _ List.mem_cons_self
    | passed ht before after =>
      refine hold ht (hrun ht) ?_
      rw [after] at hk
      rw [before]
      exact hk
    | begun before new after ht _ starter _ run =>
      cases here.symm.trans ht
      refine hold starter run.symm ?_
      rw [after] at hk
      rw [before]
      exact hk

end Contending

end CertSteward
