import CertSteward.Proofs.Run.MutexTable

/-!
# Who holds a cell

A table knows that a cell is held, not by whom. Who holds it can be told from what strands have
been answered: a strand *grips* a cell if it knows that it holds it, or has been given it and does
not know yet. Two functions say so of all strands: the cell that a strand waits for, and the one
that it knows that it holds. If the steps on the table are those of the strands, a cell is gripped
by one strand at a time.

## Main definitions

* `MutexTable.Grips` — holding a cell, known or not
* `MutexTable.Custody` — cells are held by one strand at a time

## Main results

* `Custody.enter`, `tryEnter`, `leave`, `pass`, `got`, `gaveUp` — what strands do keeps it so
-/

namespace CertSteward

namespace MutexTable

variable {κ ν : Type} {t t' : MutexTable κ ν} {awaits awaits' holds holds' : Nat → Option Nat}
variable {i j c : Nat}

/-- A strand holds a cell, or has been given it and does not know yet. -/
def Grips (t : MutexTable κ ν) (awaits holds : Nat → Option Nat) (i c : Nat) : Prop :=
  holds i = some c ∨ (awaits i = some c ∧ i ∉ t.line c)

/-- Cells are held by one strand at a time, and who is in line for one waits for it. -/
structure Custody (t : MutexTable κ ν) (awaits holds : Nat → Option Nat) : Prop where
  line : ∀ i c, i ∈ t.line c → awaits i = some c
  nodup : ∀ c, (t.line c).Nodup
  held : ∀ i c, t.Grips awaits holds i c → t.isHeld c = true
  single : ∀ i j c, t.Grips awaits holds i c → t.Grips awaits holds j c → i = j

namespace Custody

/-- Nobody waits for a cell and nobody holds one. -/
theorem of_nobody (line : ∀ c, t.line c = []) (awaits_ : ∀ i, awaits i = none)
    (holds_ : ∀ i, holds i = none) : t.Custody awaits holds where
  line i c hi := by
    rw [line c] at hi
    exact absurd hi List.not_mem_nil
  nodup c := by
    rw [line c]
    exact List.nodup_nil
  held := by
    rintro i c (h | ⟨h, -⟩)
    · cases (holds_ i).symm.trans h
    · cases (awaits_ i).symm.trans h
  single := by
    rintro i j c (h | ⟨h, -⟩) -
    · cases (holds_ i).symm.trans h
    · cases (awaits_ i).symm.trans h

/-- Who grips a cell afterwards has gripped it before. -/
theorem of_grips (ht : t.Custody awaits holds)
    (line : ∀ i c, i ∈ t'.line c → i ∈ t.line c ∧ awaits' i = awaits i)
    (nodup : ∀ c, (t'.line c).Nodup) (held : ∀ c, t'.isHeld c = t.isHeld c)
    (grips : ∀ i c, t'.Grips awaits' holds' i c → t.Grips awaits holds i c) :
    t'.Custody awaits' holds' where
  line i c hi := (line i c hi).2.trans (ht.line i c (line i c hi).1)
  nodup := nodup
  held i c hi := (held c).trans (ht.held i c (grips i c hi))
  single i j c hi hj := ht.single i j c (grips i c hi) (grips j c hj)

/-- Nothing happens that has to do with holding. -/
theorem of_same (ht : t.Custody awaits holds) (line : ∀ c, t'.line c = t.line c)
    (held : ∀ c, t'.isHeld c = t.isHeld c) (awaits_ : ∀ i, awaits' i = awaits i)
    (holds_ : ∀ i, holds' i = holds i) : t'.Custody awaits' holds' := by
  refine ht.of_grips (fun i c hi => ⟨line c ▸ hi, awaits_ i⟩) (fun c => line c ▸ ht.nodup c) held ?_
  intro i c hi
  rw [Grips, line, awaits_, holds_] at hi
  exact hi

/-- Who waits for nothing is in no line. -/
theorem not_mem_line (ht : t.Custody awaits holds) (h : awaits i = none) (c : Nat) :
    i ∉ t.line c := by
  intro hc
  cases h.symm.trans (ht.line i c hc)

/-- A strand gets in line, or holds the cell at once. -/
theorem enter (ht : t.Custody awaits holds) (hc : c < t.cells.size) (before : awaits i = none)
    (after : awaits' i = some c) (others : ∀ j, j ≠ i → awaits' j = awaits j)
    (none_ : holds i = none) : (t.enter c i).2.Custody awaits' holds := by
  have hline : ∀ d, (t.enter c i).2.line d =
      if c = d ∧ t.isHeld c = true then t.line d ++ [i] else t.line d := fun d => line_enter
  have hheld : ∀ d, (t.enter c i).2.isHeld d = (t.isHeld d || c == d) := fun d => isHeld_enter hc
  have hnew : ∀ d, i ∉ t.line d := ht.not_mem_line before
  -- whoever else holds a cell held it before
  have hold : ∀ j d, j ≠ i → (t.enter c i).2.Grips awaits' holds j d → t.Grips awaits holds j d := by
    rintro j d hj (h | ⟨h, hnot⟩)
    · exact .inl h
    · refine .inr ⟨others j hj ▸ h, fun hmem => hnot ?_⟩
      rw [hline]
      split
      · exact List.mem_append_left _ hmem
      · exact hmem
  have hself : ∀ d, (t.enter c i).2.Grips awaits' holds i d → d = c ∧ t.isHeld c = false := by
    rintro d (h | ⟨h, hnot⟩)
    · cases none_.symm.trans h
    · obtain rfl : c = d := Option.some.inj (after.symm.trans h)
      refine ⟨rfl, ?_⟩
      cases hc : t.isHeld c with
      | false => rfl
      | true =>
        rw [hline, if_pos ⟨rfl, hc⟩] at hnot
        exact absurd (List.mem_append_right _ List.mem_cons_self) hnot
  refine ⟨fun j d hj => ?_, fun d => ?_, fun j d hj => ?_, fun j j' d hj hj' => ?_⟩
  · rw [hline] at hj
    by_cases hji : j = i
    · subst hji
      split at hj
      · rename_i hcd
        rw [after, hcd.1]
      · exact absurd hj (hnew d)
    · rw [others j hji]
      split at hj
      · obtain hj | hj := List.mem_append.mp hj
        · exact ht.line j d hj
        · exact absurd (List.mem_singleton.mp hj) hji
      · exact ht.line j d hj
  · rw [hline]
    split
    · refine List.nodup_append.mpr ⟨ht.nodup d, List.pairwise_singleton _ _, fun x hx y hy => ?_⟩
      rw [List.mem_singleton.mp hy]
      rintro rfl
      exact hnew d hx
    · exact ht.nodup d
  · rw [hheld]
    by_cases hji : j = i
    · subst hji
      rw [(hself d hj).1]
      simp
    · rw [ht.held j d (hold j d hji hj)]
      rfl
  · by_cases hji : j = i <;> by_cases hji' : j' = i
    · rw [hji, hji']
    · obtain ⟨rfl, hfree⟩ := hself d (hji ▸ hj)
      cases hfree.symm.trans (ht.held j' d (hold j' d hji' hj'))
    · obtain ⟨rfl, hfree⟩ := hself d (hji' ▸ hj')
      cases hfree.symm.trans (ht.held j d (hold j d hji hj))
    · exact ht.single j j' d (hold j d hji hj) (hold j' d hji' hj')

/-- A strand takes a cell that nobody holds. -/
theorem tryEnter (ht : t.Custody awaits holds) (hc : c < t.cells.size) (free : t.isHeld c = false)
    (before : awaits i = none) (after : holds' i = some c) (awaits_ : ∀ j, awaits' j = awaits j)
    (others : ∀ j, j ≠ i → holds' j = holds j) : (t.tryEnter c).2.Custody awaits' holds' := by
  have hline : ∀ d, (t.tryEnter c).2.line d = t.line d := fun d => line_tryEnter
  have hheld : ∀ d, (t.tryEnter c).2.isHeld d = (t.isHeld d || c == d) := fun d =>
    isHeld_tryEnter hc
  have hcases : ∀ j d, (t.tryEnter c).2.Grips awaits' holds' j d →
      (j = i ∧ d = c) ∨ (j ≠ i ∧ t.Grips awaits holds j d) := by
    intro j d hj
    rw [Grips, hline, awaits_] at hj
    by_cases hji : j = i
    · subst hji
      obtain h | ⟨h, -⟩ := hj
      · exact .inl ⟨rfl, (Option.some.inj (after.symm.trans h)).symm⟩
      · cases before.symm.trans h
    · refine .inr ⟨hji, ?_⟩
      rw [others j hji] at hj
      exact hj
  have hfree : ∀ j, ¬ t.Grips awaits holds j c := by
    intro j h
    cases free.symm.trans (ht.held j c h)
  refine ⟨fun j d hj => ?_, fun d => ?_, fun j d hj => ?_, fun j j' d hj hj' => ?_⟩
  · rw [hline] at hj
    exact (awaits_ j).trans (ht.line j d hj)
  · rw [hline]
    exact ht.nodup d
  · rw [hheld]
    obtain ⟨-, rfl⟩ | ⟨-, hold⟩ := hcases j d hj
    · simp
    · rw [ht.held j d hold]
      rfl
  · obtain ⟨rfl, rfl⟩ | ⟨-, hold⟩ := hcases j d hj
    · obtain ⟨rfl, -⟩ | ⟨-, hold'⟩ := hcases j' d hj'
      · rfl
      · exact absurd hold' (hfree j')
    · obtain ⟨rfl, rfl⟩ | ⟨-, hold'⟩ := hcases j' d hj'
      · exact absurd hold (hfree j)
      · exact ht.single j j' d hold hold'

/-- A strand lets a cell go, which passes to the first in line. -/
theorem leave (ht : t.Custody awaits holds) (grips : t.Grips awaits holds i c)
    (after : awaits' i = none) (none_ : holds' i = none)
    (others : ∀ j, j ≠ i → awaits' j = awaits j) (apart : ∀ j, j ≠ i → holds' j = holds j)
    (notIn : ∀ d, i ∉ t.line d) : (t.leave c).2.Custody awaits' holds' := by
  have hline : ∀ d, (t.leave c).2.line d = if c = d then (t.line d).tail else t.line d :=
    fun d => line_leave
  have hmem : ∀ j d, j ∈ (t.leave c).2.line d → j ∈ t.line d := by
    intro j d hj
    rw [hline] at hj
    split at hj
    · exact List.mem_of_mem_tail hj
    · exact hj
  -- whoever holds a cell now held it before, or is the first in line for the one that is let go
  have hcases : ∀ j d, (t.leave c).2.Grips awaits' holds' j d →
      j ≠ i ∧ ((t.Grips awaits holds j d ∧ c ≠ d) ∨ (d = c ∧ (t.line c).head? = some j)) := by
    intro j d hj
    have hji : j ≠ i := by
      rintro rfl
      obtain h | ⟨h, -⟩ := hj
      · cases none_.symm.trans h
      · cases after.symm.trans h
    refine ⟨hji, ?_⟩
    by_cases hcd : c = d
    · subst hcd
      refine .inr ⟨rfl, ?_⟩
      have hnot : ¬ t.Grips awaits holds j c := fun h => hji (ht.single j i c h grips)
      obtain h | ⟨h, hnotin⟩ := hj
      · exact absurd (.inl (apart j hji ▸ h)) hnot
      · rw [others j hji] at h
        have hin : j ∈ t.line c := Decidable.byContradiction fun hn => hnot (.inr ⟨h, hn⟩)
        rw [hline, if_pos rfl] at hnotin
        cases hl : t.line c with
        | nil =>
          rw [hl] at hin
          exact absurd hin List.not_mem_nil
        | cons x rest =>
          rw [hl] at hin hnotin
          obtain rfl | hin := List.mem_cons.mp hin
          · rfl
          · exact absurd hin hnotin
    · refine .inl ⟨?_, hcd⟩
      obtain h | ⟨h, hnot⟩ := hj
      · exact .inl (apart j hji ▸ h)
      · rw [hline, if_neg hcd] at hnot
        exact .inr ⟨others j hji ▸ h, hnot⟩
  refine ⟨fun j d hj => ?_, fun d => ?_, fun j d hj => ?_, fun j j' d hj hj' => ?_⟩
  · have hj := hmem j d hj
    have hji : j ≠ i := by
      rintro rfl
      exact notIn d hj
    rw [others j hji]
    exact ht.line j d hj
  · rw [hline]
    split
    · exact (ht.nodup d).sublist (List.tail_sublist _)
    · exact ht.nodup d
  · obtain ⟨-, ⟨hold, hcd⟩ | ⟨rfl, hhead⟩⟩ := hcases j d hj
    · rw [isHeld_leave, if_neg fun h => hcd h.1]
      exact ht.held j d hold
    · have hne : t.line d ≠ [] := by
        intro hnil
        rw [hnil] at hhead
        cases hhead
      rw [isHeld_leave, if_neg fun h => hne h.2]
      exact ht.held i d grips
  · obtain ⟨-, ⟨hold, hcd⟩ | ⟨rfl, hhead⟩⟩ := hcases j d hj
    · obtain ⟨-, ⟨hold', -⟩ | ⟨rfl, -⟩⟩ := hcases j' d hj'
      · exact ht.single j j' d hold hold'
      · exact absurd rfl hcd
    · obtain ⟨-, ⟨-, hcd⟩ | ⟨-, hhead'⟩⟩ := hcases j' d hj'
      · exact absurd rfl hcd
      · exact Option.some.inj (hhead.symm.trans hhead')

/-- A strand passes the cell that it holds on to one that has not begun. -/
theorem pass (ht : t.Custody awaits holds) (grips : t.Grips awaits holds i c)
    (notHolds : holds' i = none) (notAwaits : ∀ j, awaits' j = awaits j) (before : awaits i = none)
    (new : holds' j = some c) (newAwaits : awaits j = none)
    (apart : ∀ k, k ≠ i → k ≠ j → holds' k = holds k) : t.Custody awaits' holds' := by
  -- a strand that holds a cell held it before, or is the new one
  have hcases : ∀ k d, t.Grips awaits' holds' k d →
      k ≠ i ∧ ((k = j ∧ d = c) ∨ (k ≠ j ∧ t.Grips awaits holds k d)) := by
    intro k d hk
    have hki : k ≠ i := by
      rintro rfl
      obtain h | ⟨h, -⟩ := hk
      · cases notHolds.symm.trans h
      · cases before.symm.trans ((notAwaits k).symm.trans h)
    refine ⟨hki, ?_⟩
    by_cases hkj : k = j
    · subst hkj
      obtain h | ⟨h, -⟩ := hk
      · exact .inl ⟨rfl, (Option.some.inj (new.symm.trans h)).symm⟩
      · cases newAwaits.symm.trans ((notAwaits k).symm.trans h)
    · refine .inr ⟨hkj, ?_⟩
      obtain h | ⟨h, hnot⟩ := hk
      · exact .inl (apart k hki hkj ▸ h)
      · exact .inr ⟨notAwaits k ▸ h, hnot⟩
  refine ⟨fun k d hk => ?_, ht.nodup, fun k d hk => ?_, fun k l d hk hl => ?_⟩
  · rw [notAwaits]
    exact ht.line k d hk
  · obtain ⟨-, ⟨-, rfl⟩ | ⟨-, hold⟩⟩ := hcases k d hk
    · exact ht.held i d grips
    · exact ht.held k d hold
  · obtain ⟨hki, ⟨rfl, rfl⟩ | ⟨-, hold⟩⟩ := hcases k d hk
    · obtain ⟨hli, ⟨rfl, -⟩ | ⟨-, hold⟩⟩ := hcases l d hl
      · rfl
      · exact absurd (ht.single l i d hold grips) hli
    · obtain ⟨hli, ⟨rfl, rfl⟩ | ⟨-, hold'⟩⟩ := hcases l d hl
      · exact absurd (ht.single k i d hold grips) hki
      · exact ht.single k l d hold hold'

/-- A strand learns that it holds the cell that it waited for. -/
theorem got (ht : t.Custody awaits holds) (before : awaits i = some c) (granted : i ∉ t.line c)
    (after : awaits' i = none) (held : holds' i = some c)
    (others : ∀ j, j ≠ i → awaits' j = awaits j) (apart : ∀ j, j ≠ i → holds' j = holds j) :
    t.Custody awaits' holds' := by
  refine ht.of_grips (fun j d hj => ⟨hj, others j ?_⟩) ht.nodup (fun _ => rfl) fun j d hj => ?_
  · rintro rfl
    obtain rfl := Option.some.inj (before.symm.trans (ht.line j d hj))
    exact granted hj
  · by_cases hji : j = i
    · subst hji
      obtain hj | ⟨hj, -⟩ := hj
      · obtain rfl := Option.some.inj (held.symm.trans hj)
        exact .inr ⟨before, granted⟩
      · cases after.symm.trans hj
    · obtain hj | ⟨hj, hnot⟩ := hj
      · exact .inl (apart j hji ▸ hj)
      · exact .inr ⟨others j hji ▸ hj, hnot⟩

/-- A strand gives up on the cell that it waited for, and passes it on if it was given it. -/
theorem gaveUp (ht : t.Custody awaits holds) (before : awaits i = some c) (after : awaits' i = none)
    (none_ : holds' i = none) (others : ∀ j, j ≠ i → awaits' j = awaits j)
    (apart : ∀ j, j ≠ i → holds' j = holds j) :
    (if i ∈ t.line c then t.withdraw c i else (t.leave c).2).Custody awaits' holds' := by
  have hother : ∀ d, i ∈ t.line d → d = c := fun d hd =>
    (Option.some.inj (before.symm.trans (ht.line i d hd))).symm
  by_cases hin : i ∈ t.line c
  · rw [if_pos hin]
    have hline : ∀ d, (t.withdraw c i).line d =
        if c = d then (t.line d).filter (· ≠ i) else t.line d := fun d => line_withdraw
    have hmem : ∀ j d, j ∈ (t.withdraw c i).line d → j ∈ t.line d ∧ j ≠ i := by
      intro j d hj
      rw [hline] at hj
      split at hj
      · obtain ⟨hj, hne⟩ := List.mem_filter.mp hj
        exact ⟨hj, of_decide_eq_true hne⟩
      · rename_i hcd
        refine ⟨hj, ?_⟩
        rintro rfl
        exact hcd (hother d hj).symm
    refine ht.of_grips (fun j d hj => ?_) (fun d => ?_) (fun d => isHeld_withdraw) fun j d hj => ?_
    · obtain ⟨hj, hne⟩ := hmem j d hj
      exact ⟨hj, others j hne⟩
    · rw [hline]
      split
      · exact (ht.nodup d).sublist List.filter_sublist
      · exact ht.nodup d
    · have hji : j ≠ i := by
        rintro rfl
        obtain hj | ⟨hj, -⟩ := hj
        · cases none_.symm.trans hj
        · cases after.symm.trans hj
      obtain hj | ⟨hj, hnot⟩ := hj
      · exact .inl (apart j hji ▸ hj)
      · refine .inr ⟨others j hji ▸ hj, fun hold => hnot ?_⟩
        rw [hline]
        split
        · exact List.mem_filter.mpr ⟨hold, decide_eq_true hji⟩
        · exact hold
  · rw [if_neg hin]
    refine ht.leave (.inr ⟨before, hin⟩) after none_ others apart fun d hd => ?_
    exact hin (hother d hd ▸ hd)

end Custody

end MutexTable

end CertSteward
