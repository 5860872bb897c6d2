import CertSteward.Run.World

/-!
# What steps change in a table

A cell has a line, a holder, a value and a number of users, and a table leads from keys to cells.
Each step changes few of these. The lemmas here say which, one for each step and each thing that
can be looked at, so that no proof about tables has to open a step again.

## Main definitions

* `MutexTable.line` — the fibers that wait for a cell
* `MutexTable.Distinct` — different keys lead to different cells

## Main results

* `line_enter`, `line_leave`, `line_withdraw` — the line of a cell
* `isHeld_enter`, `isHeld_leave` — whether a cell is held
* `lookup_obtain`, `lookup_remove`, `lookup_tidy` — where keys lead
-/

namespace CertSteward

namespace MutexTable

variable {κ ν : Type} {t : MutexTable κ ν} {c d i : Nat} {f : Cell ν → Cell ν} {v : ν}

/-- The fibers that wait for a cell, the first in line first. -/
def line (t : MutexTable κ ν) (c : Nat) : List Nat :=
  (t.cells[c]?.map (·.waiting)).getD []

/-! ### Changes of one cell -/

theorem cells_modify : (t.modify c f).cells[d]? =
    if c = d then t.cells[d]?.map f else t.cells[d]? := by
  simp [modify, Array.getElem?_modify]

@[simp] theorem index_modify : (t.modify c f).index = t.index := rfl

@[simp] theorem size_modify : (t.modify c f).cells.size = t.cells.size := by
  simp [modify]

theorem line_modify : (t.modify c f).line d =
    if c = d then (t.cells[d]?.map fun cell => (f cell).waiting).getD [] else t.line d := by
  rw [line, cells_modify]
  split <;> simp [line, Function.comp_def]

theorem isHeld_modify : (t.modify c f).isHeld d =
    if c = d then t.cells[d]?.any fun cell => (f cell).isHeld else t.isHeld d := by
  rw [isHeld, cells_modify]
  split
  · cases t.cells[d]? <;> rfl
  · rfl

theorem value?_modify : (t.modify c f).value? d =
    if c = d then t.cells[d]?.map fun cell => (f cell).value else t.value? d := by
  rw [value?, cells_modify]
  split <;> simp [value?, Function.comp_def]

theorem users_modify : (t.modify c f).users d =
    if c = d then (t.cells[d]?.map fun cell => (f cell).users).getD 0 else t.users d := by
  rw [users, cells_modify]
  split <;> simp [users, Function.comp_def]

/-! ### Users -/

section Users

@[simp] theorem line_share : (t.share c).line d = t.line d := by
  rw [share, line_modify]
  split <;> rfl

@[simp] theorem isHeld_share : (t.share c).isHeld d = t.isHeld d := by
  rw [share, isHeld_modify]
  split <;> rfl

@[simp] theorem value?_share : (t.share c).value? d = t.value? d := by
  rw [share, value?_modify]
  split <;> rfl

theorem users_share (hc : c < t.cells.size) :
    (t.share c).users d = t.users d + if c = d then 1 else 0 := by
  rw [share, users_modify]
  split
  · rename_i h
    subst h
    simp [users, hc]
  · rfl

@[simp] theorem line_release : (t.release c).line d = t.line d := by
  rw [release, line_modify]
  split <;> rfl

@[simp] theorem isHeld_release : (t.release c).isHeld d = t.isHeld d := by
  rw [release, isHeld_modify]
  split <;> rfl

@[simp] theorem value?_release : (t.release c).value? d = t.value? d := by
  rw [release, value?_modify]
  split <;> rfl

theorem users_release : (t.release c).users d = t.users d - if c = d then 1 else 0 := by
  rw [release, users_modify]
  split
  · rename_i h
    subst h
    cases h : t.cells[c]? <;> simp [users, h]
  · rfl

end Users

/-! ### Holding a cell -/

section Holding

theorem lt_of_isHeld (h : t.isHeld c = true) : c < t.cells.size := by
  rw [isHeld] at h
  cases hc : t.cells[c]? with
  | none =>
    rw [hc] at h
    cases h
  | some cell => exact (Array.getElem?_eq_some_iff.mp hc).1

theorem enter_of_isHeld (h : t.isHeld c = true) : (t.enter c i).2 =
    t.modify c fun cell => { cell with waiting := cell.waiting ++ [i] } := by
  rw [enter, tryEnter, if_pos h]

theorem enter_of_not_isHeld (h : t.isHeld c = false) : (t.enter c i).2 =
    t.modify c fun cell => { cell with isHeld := true } := by
  rw [enter, tryEnter, if_neg (by rw [h]; exact Bool.false_ne_true)]

@[simp] theorem line_tryEnter : (t.tryEnter c).2.line d = t.line d := by
  rw [tryEnter]
  split
  · rfl
  · rw [line_modify]
    split <;> rfl

theorem isHeld_tryEnter (hc : c < t.cells.size) :
    (t.tryEnter c).2.isHeld d = (t.isHeld d || c == d) := by
  rw [tryEnter]
  by_cases hcd : c = d
  · subst hcd
    split
    · rename_i h
      simp [h]
    · simp [isHeld_modify, hc]
  · split
    · simp [hcd]
    · simp [isHeld_modify, hcd]

@[simp] theorem users_tryEnter : (t.tryEnter c).2.users d = t.users d := by
  rw [tryEnter]
  split
  · rfl
  · rw [users_modify]
    split <;> rfl

@[simp] theorem index_tryEnter : (t.tryEnter c).2.index = t.index := by
  rw [tryEnter]
  split <;> rfl

@[simp] theorem size_tryEnter : (t.tryEnter c).2.cells.size = t.cells.size := by
  rw [tryEnter]
  split
  · rfl
  · exact size_modify

theorem line_enter : (t.enter c i).2.line d =
    if c = d ∧ t.isHeld c = true then t.line d ++ [i] else t.line d := by
  cases h : t.isHeld c with
  | true =>
    rw [enter_of_isHeld h, line_modify]
    by_cases hcd : c = d
    · subst hcd
      have hc := lt_of_isHeld h
      simp [line, hc]
    · simp [hcd]
  | false =>
    rw [enter_of_not_isHeld h, line_modify]
    by_cases hcd : c = d <;> simp [line, hcd]

theorem isHeld_enter (hc : c < t.cells.size) :
    (t.enter c i).2.isHeld d = (t.isHeld d || c == d) := by
  by_cases hcd : c = d
  · subst hcd
    cases h : t.isHeld c with
    | true =>
      rw [enter_of_isHeld h, isHeld_modify, if_pos rfl]
      exact h
    | false =>
      rw [enter_of_not_isHeld h, isHeld_modify]
      simp [hc]
  · cases h : t.isHeld c with
    | true =>
      rw [enter_of_isHeld h, isHeld_modify, if_neg hcd]
      simp [hcd]
    | false =>
      rw [enter_of_not_isHeld h, isHeld_modify, if_neg hcd]
      simp [hcd]

@[simp] theorem value?_enter : (t.enter c i).2.value? d = t.value? d := by
  cases h : t.isHeld c with
  | true =>
    rw [enter_of_isHeld h, value?_modify]
    split <;> rfl
  | false =>
    rw [enter_of_not_isHeld h, value?_modify]
    split <;> rfl

@[simp] theorem users_enter : (t.enter c i).2.users d = t.users d := by
  cases h : t.isHeld c with
  | true =>
    rw [enter_of_isHeld h, users_modify]
    split <;> rfl
  | false =>
    rw [enter_of_not_isHeld h, users_modify]
    split <;> rfl

@[simp] theorem index_enter : (t.enter c i).2.index = t.index := by
  cases h : t.isHeld c with
  | true => rw [enter_of_isHeld h, index_modify]
  | false => rw [enter_of_not_isHeld h, index_modify]

@[simp] theorem size_enter : (t.enter c i).2.cells.size = t.cells.size := by
  cases h : t.isHeld c with
  | true => rw [enter_of_isHeld h, size_modify]
  | false => rw [enter_of_not_isHeld h, size_modify]

theorem leave_of_cons {rest : List Nat} (h : t.line c = i :: rest) :
    t.leave c = (some i, t.modify c fun cell => { cell with waiting := rest }) := by
  rw [leave]
  rw [line] at h
  rw [h]

theorem leave_of_nil (h : t.line c = []) :
    t.leave c = (none, t.modify c fun cell => { cell with isHeld := false }) := by
  rw [leave]
  rw [line] at h
  rw [h]

theorem line_leave : (t.leave c).2.line d = if c = d then (t.line d).tail else t.line d := by
  cases h : t.line c with
  | nil =>
    rw [leave_of_nil h, line_modify]
    by_cases hcd : c = d
    · subst hcd
      rw [if_pos rfl, if_pos rfl, h]
      exact h
    · rw [if_neg hcd, if_neg hcd]
  | cons j rest =>
    rw [leave_of_cons h, line_modify]
    by_cases hcd : c = d
    · subst hcd
      rw [if_pos rfl, if_pos rfl, h]
      cases hc : t.cells[c]? with
      | none =>
        rw [line, hc] at h
        cases h
      | some cell => rfl
    · rw [if_neg hcd, if_neg hcd]

theorem isHeld_leave : (t.leave c).2.isHeld d =
    if c = d ∧ t.line c = [] then false else t.isHeld d := by
  cases h : t.line c with
  | nil =>
    rw [leave_of_nil h, isHeld_modify]
    by_cases hcd : c = d
    · cases hd : t.cells[d]? <;> simp [hcd]
    · simp [hcd]
  | cons j rest =>
    rw [leave_of_cons h, isHeld_modify]
    by_cases hcd : c = d
    · rw [if_pos hcd, if_neg (by simp)]
      rfl
    · rw [if_neg hcd, if_neg (by simp)]

@[simp] theorem value?_leave : (t.leave c).2.value? d = t.value? d := by
  cases h : t.line c with
  | nil =>
    rw [leave_of_nil h, value?_modify]
    split <;> rfl
  | cons j rest =>
    rw [leave_of_cons h, value?_modify]
    split <;> rfl

@[simp] theorem users_leave : (t.leave c).2.users d = t.users d := by
  cases h : t.line c with
  | nil =>
    rw [leave_of_nil h, users_modify]
    split <;> rfl
  | cons j rest =>
    rw [leave_of_cons h, users_modify]
    split <;> rfl

@[simp] theorem index_leave : (t.leave c).2.index = t.index := by
  cases h : t.line c with
  | nil => rw [leave_of_nil h, index_modify]
  | cons j rest => rw [leave_of_cons h, index_modify]

@[simp] theorem size_leave : (t.leave c).2.cells.size = t.cells.size := by
  cases h : t.line c with
  | nil => rw [leave_of_nil h, size_modify]
  | cons j rest => rw [leave_of_cons h, size_modify]

theorem line_withdraw : (t.withdraw c i).line d =
    if c = d then (t.line d).filter (· ≠ i) else t.line d := by
  rw [withdraw, line_modify]
  split
  · cases h : t.cells[d]? <;> simp [line, h]
  · rfl

@[simp] theorem isHeld_withdraw : (t.withdraw c i).isHeld d = t.isHeld d := by
  rw [withdraw, isHeld_modify]
  split <;> rfl

@[simp] theorem value?_withdraw : (t.withdraw c i).value? d = t.value? d := by
  rw [withdraw, value?_modify]
  split <;> rfl

@[simp] theorem users_withdraw : (t.withdraw c i).users d = t.users d := by
  rw [withdraw, users_modify]
  split <;> rfl

end Holding

/-! ### Values -/

@[simp] theorem line_put : (t.put c v).line d = t.line d := by
  rw [put, line_modify]
  split <;> rfl

@[simp] theorem isHeld_put : (t.put c v).isHeld d = t.isHeld d := by
  rw [put, isHeld_modify]
  split <;> rfl

theorem value?_put (hc : c < t.cells.size) :
    (t.put c v).value? d = if c = d then some v else t.value? d := by
  rw [put, value?_modify]
  split
  · rename_i h
    subst h
    simp [hc]
  · rfl

@[simp] theorem users_put : (t.put c v).users d = t.users d := by
  rw [put, users_modify]
  split <;> rfl

/-! ### Keys -/

section Keys

@[simp] theorem index_share : (t.share c).index = t.index := rfl

@[simp] theorem index_release : (t.release c).index = t.index := rfl

@[simp] theorem index_put : (t.put c v).index = t.index := rfl

@[simp] theorem index_withdraw : (t.withdraw c i).index = t.index := rfl

variable [BEq κ] {k l : κ}

theorem obtain_of_some (h : t.index.lookup k = some c) : t.obtain k v = (c, t.share c) := by
  rw [MutexTable.obtain, h]

theorem obtain_of_none (h : t.index.lookup k = none) : t.obtain k v = (t.cells.size,
    { cells := t.cells.push { value := v, users := 1 }
      index := t.index ++ [(k, t.cells.size)] }) := by
  rw [MutexTable.obtain, h]

theorem find_of_some (h : t.index.lookup k = some c) : t.find k = (some c, t.share c) := by
  rw [find, h]

theorem find_of_none (h : t.index.lookup k = none) : t.find k = (none, t) := by
  rw [find, h]

/-- What is found is the cell to which the key leads. -/
theorem fst_find : (t.find k).1 = t.index.lookup k := by
  cases h : t.index.lookup k with
  | none => rw [find_of_none h]
  | some c => rw [find_of_some h]

@[simp] theorem index_find : (t.find k).2.index = t.index := by
  cases h : t.index.lookup k with
  | none => rw [find_of_none h]
  | some c => rw [find_of_some h, index_share]

@[simp] theorem line_find : (t.find k).2.line d = t.line d := by
  cases h : t.index.lookup k with
  | none => rw [find_of_none h]
  | some c => rw [find_of_some h, line_share]

@[simp] theorem isHeld_find : (t.find k).2.isHeld d = t.isHeld d := by
  cases h : t.index.lookup k with
  | none => rw [find_of_none h]
  | some c => rw [find_of_some h, isHeld_share]

@[simp] theorem value?_find : (t.find k).2.value? d = t.value? d := by
  cases h : t.index.lookup k with
  | none => rw [find_of_none h]
  | some c => rw [find_of_some h, value?_share]

@[simp] theorem cells_remove : (t.remove k).cells = t.cells := rfl

@[simp] theorem line_remove : (t.remove k).line d = t.line d := rfl

@[simp] theorem isHeld_remove : (t.remove k).isHeld d = t.isHeld d := rfl

@[simp] theorem value?_remove : (t.remove k).value? d = t.value? d := rfl

@[simp] theorem users_remove : (t.remove k).users d = t.users d := rfl

/-- A new cell has no line. -/
@[simp] theorem line_obtain : (t.obtain k v).2.line d = t.line d := by
  cases h : t.index.lookup k with
  | some c => rw [obtain_of_some h, line_share]
  | none =>
    rw [obtain_of_none h, line, line, Array.getElem?_push]
    split
    · rename_i hd
      subst hd
      simp
    · rfl

/-- A new cell is not held. -/
@[simp] theorem isHeld_obtain : (t.obtain k v).2.isHeld d = t.isHeld d := by
  cases h : t.index.lookup k with
  | some c => rw [obtain_of_some h, isHeld_share]
  | none =>
    rw [obtain_of_none h, isHeld, isHeld, Array.getElem?_push]
    split
    · rename_i hd
      subst hd
      simp
    · rfl

theorem value?_obtain : (t.obtain k v).2.value? d =
    if t.index.lookup k = none ∧ d = t.cells.size then some v else t.value? d := by
  cases h : t.index.lookup k with
  | some c => simp [obtain_of_some h]
  | none =>
    rw [obtain_of_none h, value?, value?, Array.getElem?_push]
    by_cases hd : d = t.cells.size <;> simp [hd]

theorem users_obtain (h : ∀ c, t.index.lookup k = some c → c < t.cells.size) :
    (t.obtain k v).2.users d = t.users d + if (t.obtain k v).1 = d then 1 else 0 := by
  cases hk : t.index.lookup k with
  | some c => rw [obtain_of_some hk, users_share (h c hk)]
  | none =>
    rw [obtain_of_none hk, users, users, Array.getElem?_push]
    by_cases hd : d = t.cells.size
    · simp [hd]
    · simp [hd, Ne.symm hd]

/-- A key is removed only if it leads to the cell and nobody else uses that. -/
theorem discard_cases : t.discard k c = t ∨
    (t.index.lookup k = some c ∧ t.users c ≤ 1 ∧ t.discard k c = t.remove k) := by
  rw [discard]
  split
  · rename_i h
    exact .inr ⟨h.1, h.2, rfl⟩
  · exact .inl rfl

theorem size_le_obtain : t.cells.size ≤ (t.obtain k v).2.cells.size := by
  cases h : t.index.lookup k with
  | some c => exact Nat.le_of_eq (by rw [obtain_of_some h, share, size_modify])
  | none =>
    rw [obtain_of_none h, Array.size_push]
    exact Nat.le_succ _

@[simp] theorem users_tidy : (t.tidy k).users d = t.users d := by
  rw [tidy]
  split
  · split <;> rfl
  · rfl

@[simp] theorem size_tidy : (t.tidy k).cells.size = t.cells.size := by
  rw [tidy]
  split
  · split <;> rfl
  · rfl

/-- A key is removed only if nobody uses its cell. -/
theorem tidy_cases : t.tidy k = t ∨
    ∃ c, t.index.lookup k = some c ∧ t.users c = 0 ∧ t.tidy k = t.remove k := by
  rw [tidy]
  split
  · rename_i c h
    split
    · rename_i hzero
      exact .inr ⟨c, h, hzero, rfl⟩
    · exact .inl rfl
  · exact .inl rfl

theorem lt_obtain (h : ∀ c, t.index.lookup k = some c → c < t.cells.size) :
    (t.obtain k v).1 < (t.obtain k v).2.cells.size := by
  cases hk : t.index.lookup k with
  | some c =>
    rw [obtain_of_some hk, share, size_modify]
    exact h c hk
  | none =>
    rw [obtain_of_none hk, Array.size_push]
    exact Nat.lt_succ_self _

variable [LawfulBEq κ]

theorem lookup_obtain : (t.obtain k v).2.index.lookup l =
    if l == k then some (t.obtain k v).1 else t.index.lookup l := by
  cases h : t.index.lookup k with
  | some c =>
    rw [obtain_of_some h, index_share]
    by_cases hl : (l == k) = true
    · rw [if_pos hl, eq_of_beq hl, h]
    · rw [if_neg hl]
  | none =>
    rw [obtain_of_none h]
    rw [List.lookup_append]
    by_cases hl : (l == k) = true
    · rw [if_pos hl, eq_of_beq hl, h, List.lookup_cons_self]
      rfl
    · rw [if_neg hl, List.lookup_cons, Bool.eq_false_iff.mpr hl]
      exact Option.or_none

theorem lookup_obtain_self : (t.obtain k v).2.index.lookup k = some (t.obtain k v).1 := by
  rw [lookup_obtain, if_pos (beq_self_eq_true k)]

theorem lookup_remove : (t.remove k).index.lookup l =
    if l == k then none else t.index.lookup l := by
  rw [remove]
  generalize t.index = index
  induction index with
  | nil => simp
  | cons entry index ih =>
    rw [List.filter_cons, List.lookup_cons]
    by_cases hm : (entry.1 == k) = true
    · -- an entry of `k` is gone, and leads nowhere else
      rw [if_neg (by rw [hm]; exact Bool.false_ne_true), ih]
      by_cases hl : (l == k) = true
      · rw [if_pos hl, if_pos hl]
      · have hlm : (l == entry.1) = false := by
          rw [eq_of_beq hm]
          exact Bool.eq_false_iff.mpr hl
        rw [if_neg hl, if_neg hl, hlm]
    · rw [if_pos (by rw [Bool.eq_false_iff.mpr hm]; rfl), List.lookup_cons, ih]
      by_cases hlm : (l == entry.1) = true
      · have hl : ¬ (l == k) = true := by
          rw [eq_of_beq hlm]
          exact hm
        simp only [hlm, if_neg hl]
      · rw [Bool.eq_false_iff.mpr hlm]

/-- What is left of the keys: those whose cell somebody uses, and all the others. -/
theorem lookup_tidy : (t.tidy k).index.lookup l = some c ↔
    t.index.lookup l = some c ∧ (l = k → t.users c ≠ 0) := by
  rw [tidy]
  cases hk : t.index.lookup k with
  | none =>
    refine ⟨fun h => ⟨h, ?_⟩, fun h => h.1⟩
    rintro rfl
    cases hk.symm.trans h
  | some d =>
    by_cases hzero : t.users d = 0
    · simp only [if_pos hzero]
      rw [lookup_remove]
      by_cases hl : (l == k) = true
      · obtain rfl := eq_of_beq hl
        rw [if_pos hl, hk]
        refine ⟨nofun, fun ⟨hd, hused⟩ => ?_⟩
        cases hd
        exact absurd hzero (hused rfl)
      · rw [if_neg hl]
        exact ⟨fun h => ⟨h, fun heq => absurd (beq_iff_eq.mpr heq) hl⟩, fun h => h.1⟩
    · simp only [if_neg hzero]
      refine ⟨fun h => ⟨h, ?_⟩, fun h => h.1⟩
      rintro rfl
      cases hk.symm.trans h
      exact hzero

/-- Different keys lead to different cells. -/
def Distinct (t : MutexTable κ ν) : Prop :=
  ∀ k l c, t.index.lookup k = some c → t.index.lookup l = some c → k = l

/-- A key that leads nowhere is led to a new cell. -/
theorem Distinct.obtain (h : t.Distinct)
    (bound : ∀ l c, t.index.lookup l = some c → c < t.cells.size) : (t.obtain k v).2.Distinct := by
  -- no other key leads to the cell
  have hnew : ∀ l, t.index.lookup l = some (t.obtain k v).1 → l = k := by
    intro l hl
    cases hk : t.index.lookup k with
    | some c =>
      rw [obtain_of_some hk] at hl
      exact h l k c hl hk
    | none =>
      rw [obtain_of_none hk] at hl
      exact absurd (bound l _ hl) (Nat.lt_irrefl _)
  intro a b c ha hb
  rw [lookup_obtain] at ha hb
  split at ha <;> split at hb
  · rename_i hak hbk
    rw [eq_of_beq hak, eq_of_beq hbk]
  · rename_i hak _
    cases ha
    rw [eq_of_beq hak, hnew b hb]
  · rename_i _ hbk
    cases hb
    rw [eq_of_beq hbk, hnew a ha]
  · exact h a b c ha hb

theorem Distinct.tidy (h : t.Distinct) : (t.tidy k).Distinct := fun a b c ha hb =>
  h a b c (lookup_tidy.mp ha).1 (lookup_tidy.mp hb).1

end Keys

/-! ### Steps that change no key -/

/-- Keys lead where they led, and cells have as many users. -/
structure SameKeys (t t' : MutexTable κ ν) : Prop where
  index : t.index = t'.index
  size : t.cells.size = t'.cells.size
  users : ∀ c, t.users c = t'.users c

namespace SameKeys

theorem rfl : t.SameKeys t := ⟨by rfl, by rfl, fun _ => by rfl⟩

theorem enter : (t.enter c i).2.SameKeys t := ⟨index_enter, size_enter, fun _ => users_enter⟩

theorem tryEnter : (t.tryEnter c).2.SameKeys t :=
  ⟨index_tryEnter, size_tryEnter, fun _ => users_tryEnter⟩

theorem leave : (t.leave c).2.SameKeys t := ⟨index_leave, size_leave, fun _ => users_leave⟩

theorem withdraw : (t.withdraw c i).SameKeys t :=
  ⟨index_withdraw, size_modify, fun _ => users_withdraw⟩

end SameKeys

end MutexTable

end CertSteward
