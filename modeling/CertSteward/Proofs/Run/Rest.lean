import CertSteward.Proofs.Run.MutexTable
import Mathlib.Data.List.Nodup

/-!
# Tables at rest

Between calls that come one after the other nobody uses a table: no cell is held, nobody is in line
for one, and none has users. A cell is nothing but its value then, and the table nothing but what
its keys lead to. A call uses one cell, and leaves it as it was but for the value; only a new key
adds one.

## Main definitions

* `MutexTable.contents` — the keys and the values that they lead to
* `MutexTable.Rests` — nobody uses the table
* `MutexTable.take` — somebody holds a cell
* `MutexTable.extend` — a table with one more key

## Main results

* `MutexTable.Rests.modify_take`, `MutexTable.Rests.release_share` — whoever has used a cell of a
  table at rest leaves it as it was
* `MutexTable.Rests.extend`, `MutexTable.Rests.remove` — a new key, and one that is removed
-/

namespace CertSteward

namespace MutexTable

variable {κ ν : Type} {t : MutexTable κ ν} {c : Nat} {f g : Cell ν → Cell ν} {v : ν} {k : κ}

/-- The keys in their order, each with the value that it leads to. -/
def contents (t : MutexTable κ ν) : List (κ × Option ν) := t.index.map fun x => (x.1, t.value? x.2)

/-- Nobody uses the table, and keys lead to cells of their own. -/
structure Rests (t : MutexTable κ ν) : Prop where
  isFree : ∀ (c : Nat) (cell : Cell ν), t.cells[c]? = some cell → cell = { value := cell.value }
  keys : (t.index.map (·.1)).Nodup
  cells : (t.index.map (·.2)).Nodup
  lt : ∀ x ∈ t.index, x.2 < t.cells.size

theorem rests_empty : ({} : MutexTable κ ν).Rests where
  isFree c cell h := by simp at h
  keys := List.nodup_nil
  cells := List.nodup_nil
  lt _ h := absurd h List.not_mem_nil

theorem keys_contents : t.contents.map (·.1) = t.index.map (·.1) :=
  List.map_map

/-! ### Cells -/

theorem modify_modify : (t.modify c f).modify c g = t.modify c fun cell => g (f cell) := by
  rw [modify, modify, modify]
  congr 1
  refine Array.ext_getElem? fun d => ?_
  simp only [Array.getElem?_modify]
  split <;> simp [Function.comp_def]

theorem modify_congr (h : ∀ cell, t.cells[c]? = some cell → f cell = g cell) :
    t.modify c f = t.modify c g := by
  have hcells : t.cells.modify c f = t.cells.modify c g := by
    refine Array.ext_getElem? fun d => ?_
    rw [Array.getElem?_modify, Array.getElem?_modify]
    split
    · rename_i hd
      subst hd
      exact Option.map_congr h
    · rfl
  rw [modify, modify, hcells]

theorem modify_id : t.modify c (fun cell => cell) = t := by
  have hcells : t.cells.modify c (fun cell => cell) = t.cells := by
    refine Array.ext_getElem? fun d => ?_
    rw [Array.getElem?_modify, Option.map_id', ite_self]
  rw [modify, hcells]

namespace Rests

theorem isHeld (h : t.Rests) : t.isHeld c = false := by
  rw [MutexTable.isHeld]
  cases hcell : t.cells[c]? with
  | none => rfl
  | some cell =>
    rw [h.isFree c cell hcell]
    rfl

theorem line (h : t.Rests) : t.line c = [] := by
  rw [MutexTable.line]
  cases hcell : t.cells[c]? with
  | none => rfl
  | some cell =>
    rw [h.isFree c cell hcell]
    rfl

theorem put (h : t.Rests) : (t.put c v).Rests where
  isFree d cell hcell := by
    rw [MutexTable.put, cells_modify] at hcell
    split at hcell
    · obtain ⟨before, hbefore, rfl⟩ := Option.map_eq_some_iff.mp hcell
      rw [h.isFree d before hbefore]
    · exact h.isFree d cell hcell
  keys := h.keys
  cells := h.cells
  lt x hx := by
    rw [MutexTable.put, size_modify]
    exact h.lt x hx

end Rests

/-! ### One user -/

/-- A table at rest but for one user of a cell, who holds it. -/
def take (t : MutexTable κ ν) (c : Nat) : MutexTable κ ν :=
  t.modify c fun cell => { cell with isHeld := true, users := cell.users + 1 }

theorem modify_share : (t.share c).modify c (fun cell => { cell with isHeld := true }) = t.take c :=
  modify_modify

@[simp] theorem value?_take : (t.take c).value? c = t.value? c := by
  rw [take, value?_modify, if_pos rfl, value?]

theorem put_take : (t.take c).put c v = (t.put c v).take c := by
  rw [take, take, put, put, modify_modify, modify_modify]

namespace Rests

theorem line_take (h : t.Rests) : (t.take c).line c = [] := by
  rw [take, line_modify, if_pos rfl]
  exact h.line

theorem modify_take (h : t.Rests) :
    (t.take c).modify c (fun cell => { cell with isHeld := false }) = t.share c := by
  rw [take, modify_modify, share]
  refine modify_congr fun cell hcell => ?_
  rw [h.isFree c cell hcell]

theorem release_share (h : t.Rests) : (t.share c).release c = t := by
  rw [release, share, modify_modify]
  refine (modify_congr fun cell hcell => ?_).trans modify_id
  rw [h.isFree c cell hcell]
  rfl

end Rests

/-! ### Keys -/

/-- A table with one more key, which leads to a new cell. -/
def extend (t : MutexTable κ ν) (k : κ) (cell : Cell ν) : MutexTable κ ν :=
  { cells := t.cells.push cell, index := t.index ++ [(k, t.cells.size)] }

variable {cell : Cell ν}

@[simp] theorem modify_extend :
    (t.extend k cell).modify t.cells.size f = t.extend k (f cell) := by
  have hcells : (t.cells.push cell).modify t.cells.size f = t.cells.push (f cell) := by
    refine Array.ext_getElem? fun d => ?_
    rw [Array.getElem?_modify, Array.getElem?_push, Array.getElem?_push]
    split
    · rename_i hd
      rw [if_pos hd.symm, if_pos hd.symm, Option.map_some]
    · rename_i hd
      rw [if_neg (Ne.symm hd), if_neg (Ne.symm hd)]
  rw [modify, extend, hcells, extend]

@[simp] theorem value?_extend_self : (t.extend k cell).value? t.cells.size = some cell.value := by
  simp [extend, value?]

@[simp] theorem isHeld_extend_self : (t.extend k cell).isHeld t.cells.size = cell.isHeld := by
  simp [extend, MutexTable.isHeld]

@[simp] theorem line_extend_self : (t.extend k cell).line t.cells.size = cell.waiting := by
  simp [extend, MutexTable.line]

@[simp] theorem users_extend_self : (t.extend k cell).users t.cells.size = cell.users := by
  simp [extend, users]

theorem value?_extend (hc : c < t.cells.size) : (t.extend k cell).value? c = t.value? c := by
  rw [extend, value?, value?, Array.getElem?_push, if_neg (Nat.ne_of_lt hc)]

theorem contents_extend (h : t.Rests) :
    (t.extend k cell).contents = t.contents ++ [(k, some cell.value)] := by
  have hold : ∀ x ∈ t.index, (x.1, (t.extend k cell).value? x.2) = (x.1, t.value? x.2) :=
    fun x hx => by rw [value?_extend (h.lt x hx)]
  have hindex : (t.extend k cell).index = t.index ++ [(k, t.cells.size)] := rfl
  rw [contents, hindex, List.map_append, List.map_singleton, value?_extend_self,
    List.map_congr_left hold]
  rfl

theorem Rests.extend (h : t.Rests) (hk : k ∉ t.index.map (·.1)) :
    (t.extend k { value := v }).Rests where
  isFree d cell hcell := by
    rw [MutexTable.extend, Array.getElem?_push] at hcell
    split at hcell
    · cases hcell
      rfl
    · exact h.isFree d cell hcell
  keys := by
    rw [MutexTable.extend, List.map_append, List.map_singleton]
    exact List.nodup_append.mpr ⟨h.keys, List.nodup_singleton k, fun a ha b hb => by
      rw [List.mem_singleton.mp hb]
      exact ne_of_mem_of_not_mem ha hk⟩
  cells := by
    rw [MutexTable.extend, List.map_append, List.map_singleton]
    refine List.nodup_append.mpr ⟨h.cells, List.nodup_singleton _, fun a ha b hb => ?_⟩
    obtain ⟨x, hx, rfl⟩ := List.mem_map.mp ha
    rw [List.mem_singleton.mp hb]
    exact Nat.ne_of_lt (h.lt x hx)
  lt x hx := by
    rw [MutexTable.extend, Array.size_push]
    obtain hx | hx := List.mem_append.mp hx
    · exact Nat.lt_succ_of_lt (h.lt x hx)
    · rw [List.mem_singleton.mp hx]
      exact Nat.lt_succ_self _

variable [BEq κ]

theorem modify_remove : (t.remove k).modify c f = (t.modify c f).remove k := rfl

theorem contents_remove : (t.remove k).contents = t.contents.filter (fun x => !(x.1 == k)) := by
  rw [contents, contents, List.filter_map]
  rfl

theorem Rests.remove (h : t.Rests) : (t.remove k).Rests where
  isFree := h.isFree
  keys := h.keys.sublist (List.filter_sublist.map _)
  cells := h.cells.sublist (List.filter_sublist.map _)
  lt x hx := h.lt x (List.mem_filter.mp hx).1

variable [LawfulBEq κ]

theorem mem_index_of_lookup (h : t.index.lookup k = some c) : (k, c) ∈ t.index := by
  obtain ⟨before, after, hindex, -⟩ := List.lookup_eq_some_iff.mp h
  rw [hindex]
  exact List.mem_append_right _ List.mem_cons_self

theorem lookup_eq_none_iff : t.index.lookup k = none ↔ k ∉ t.index.map (·.1) := by
  rw [List.lookup_eq_none_iff, List.mem_map]
  refine ⟨fun h ⟨x, hx, heq⟩ => ?_, fun h x hx => ?_⟩
  · exact bne_iff_ne.mp (h x hx) heq.symm
  · exact bne_iff_ne.mpr fun heq => h ⟨x, hx, heq.symm⟩

theorem lookup_extend_self (hk : t.index.lookup k = none) :
    (t.extend k cell).index.lookup k = some t.cells.size := by
  rw [extend, List.lookup_append, hk, List.lookup_cons_self]
  rfl

/-- A key that leads somewhere leads to a value. -/
theorem Rests.value (h : t.Rests) (hk : t.index.lookup k = some c) :
    ∃ v, t.value? c = some v ∧ (k, some v) ∈ t.contents := by
  have hmem := mem_index_of_lookup hk
  obtain ⟨cell, hcell⟩ : ∃ cell, t.cells[c]? = some cell :=
    ⟨_, Array.getElem?_eq_getElem (h.lt _ hmem)⟩
  have hvalue : t.value? c = some cell.value := by
    rw [value?, hcell, Option.map_some]
  exact ⟨cell.value, hvalue, List.mem_map.mpr ⟨_, hmem, by rw [hvalue]⟩⟩

/-- A key that is removed takes what it leads to along. -/
theorem contents_modify_remove (h : t.Rests) (hk : t.index.lookup k = some c) :
    ((t.modify c f).remove k).contents = t.contents.filter (fun x => !(x.1 == k)) := by
  have hmem := mem_index_of_lookup hk
  rw [← contents_remove]
  refine List.map_congr_left fun x hx => ?_
  obtain ⟨hx, hxk⟩ := List.mem_filter.mp hx
  -- no other key leads to the cell
  have hne : c ≠ x.2 := by
    intro hc
    obtain rfl := List.inj_on_of_nodup_map h.cells hmem hx hc
    simp at hxk
  rw [value?_remove, value?_modify, if_neg hne]
  rfl

/-- A new key that is removed leaves no trace among the keys. -/
theorem contents_extend_remove (h : t.Rests) (hk : k ∉ t.index.map (·.1)) :
    ((t.extend k cell).remove k).contents = t.contents := by
  have hold : t.contents.filter (fun x => !(x.1 == k)) = t.contents := by
    refine List.filter_eq_self.mpr fun x hx => ?_
    rw [Bool.not_eq_true', beq_eq_false_iff_ne]
    exact ne_of_mem_of_not_mem (List.mem_map_of_mem hx) (keys_contents (t := t) ▸ hk)
  rw [contents_remove, contents_extend h, List.filter_append, hold]
  simp

end MutexTable

end CertSteward
