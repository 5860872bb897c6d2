import CertSteward.Proofs.Dns.Visits

/-!
# Cells and their keys

A cell belongs to the key for which it was first obtained, and to no other: whoever comes to it
comes by that key, and as long as a key leads to a cell, it leads to one of its own.

## Main definitions

* `Weave.keyOf` — the key to which a cell belongs
* `Weave.Keyed` — strands and keys lead to cells of their own

## Main results

* `Contending.keyed`
-/

namespace CertSteward

/-! ### Errands fade -/

/-- Nothing about cells and keys is new: an errand goes on with its cell and key, or is done with
them. -/
def Errand.Fades (e e' : Errand) : Prop :=
  (e'.cell? = none ∨ e'.cell? = e.cell?) ∧ (e'.key? = none ∨ e'.key? = e.key?)

/-- Whether a request leads to a cell. -/
def Act.LeadsToCell : Act → Prop
  | .slots (.obtain _) | .slots (.find _) => True
  | _ => False

theorem Act.IsElsewhere.not_leadsToCell {a : Act} (h : a.IsElsewhere) : ¬ a.LeadsToCell := by
  cases a with
  | slots => exact h.elim
  | _ => exact fun h => h.elim

theorem Errand.fades_next {e : Errand} {a : Act} {answer : a.Answer} (h : ¬ a.LeadsToCell) :
    e.Fades (e.next a answer) := by
  have same : e.Fades e := ⟨.inr rfl, .inr rfl⟩
  cases a with
  | slots a =>
    cases a with
    | obtain | find => exact absurd trivial h
    | share | value | put | leave | release | discard | remove =>
      cases e <;> first | exact same | exact ⟨.inr rfl, .inl rfl⟩ | exact ⟨.inl rfl, .inl rfl⟩
    | tryEnter | tidy => exact same
  | spawn =>
    cases e <;> exact same
  | wait v =>
    cases v with
    | slot =>
      cases answer <;> cases e <;> first | exact same | exact ⟨.inr rfl, .inl rfl⟩
    | join =>
      match answer with
      | none | some (.created (.ok _)) =>
        cases e <;> first | exact same | exact ⟨.inr rfl, .inl rfl⟩
      | some (.created (.error _)) | some .finished | some .interrupted | some (.provisioned _)
      | some (.dns _) | some (.renewal _) | some (.due _) => cases e <;> exact same
    | _ => exact same
  | dns q =>
    cases q with
    | create =>
      obtain ⟨_ | id, _⟩ := answer <;> cases e <;> exact same
    | delete =>
      cases e with
      | seen k c id =>
        cases id with
        | none => exact same
        | some id => cases answer <;> exact same
      | refused => cases answer <;> exact same
      | lost => cases answer <;> exact ⟨.inl rfl, .inl rfl⟩
      | _ => exact same
    | _ => exact same
  | _ => exact same

/-! ### The key of a cell -/

/-- The key for which a cell was obtained. -/
def Event.keyOf? (c : Nat) : Event → Option SlotKey
  | ⟨_, _, .slots (.obtain k), d⟩ => if d = c then some k else none
  | _ => none

namespace Weave

/-- The key to which a cell belongs. -/
def keyOf {β : Type} (w : Weave β) (c : Nat) : Option SlotKey := w.log.findSome? (·.keyOf? c)

/-- Strands and keys lead to cells of their own. -/
structure Keyed (w : Weave Issued) : Prop where
  cell : ∀ i c, (w.errand i).cell? = some c → c < w.slots.cells.size
  key : ∀ i k c, (w.errand i).key? = some k → (w.errand i).cell? = some c → w.keyOf c = some k
  index : ∀ k c, w.slots.index.lookup k = some c → w.keyOf c = some k
  size : ∀ k c, w.keyOf c = some k → c < w.slots.cells.size

variable {w u : Weave Issued} {i j c : Nat} {k : SlotKey} {e : Event}

theorem keyOf_append (hlog : u.log = w.log ++ [e]) (c : Nat) :
    u.keyOf c = (w.keyOf c).or (e.keyOf? c) := by
  rw [keyOf, keyOf, hlog, List.findSome?_append, List.findSome?_singleton]

/-- Cells keep their keys. -/
theorem keyOf_mono {es : List Event} (hlog : u.log = w.log ++ es) (h : w.keyOf c = some k) :
    u.keyOf c = some k := by
  rw [keyOf] at h
  rw [keyOf, hlog, List.findSome?_append, h]
  rfl

theorem Keyed.lt (hw : w.Keyed) (h : w.slots.index.lookup k = some c) :
    c < w.slots.cells.size :=
  hw.size k c (hw.index k c h)

/-- Nothing is new. -/
theorem Keyed.of_fades (hw : w.Keyed) (fades : ∀ j, (w.errand j).Fades (u.errand j))
    (size : w.slots.cells.size = u.slots.cells.size)
    (index : ∀ k c, u.slots.index.lookup k = some c → w.slots.index.lookup k = some c)
    (keyOf : ∀ c, u.keyOf c = w.keyOf c) : u.Keyed where
  cell j c hc := by
    obtain h | h := (fades j).1
    · cases h.symm.trans hc
    · exact size ▸ hw.cell j c (h.symm.trans hc)
  key j k c hk hc := by
    rw [keyOf]
    obtain h | h := (fades j).1
    · cases h.symm.trans hc
    · obtain h' | h' := (fades j).2
      · cases h'.symm.trans hk
      · exact hw.key j k c (h'.symm.trans hk) (h.symm.trans hc)
  index k c h := (keyOf c).trans (hw.index k c (index k c h))
  size k c h := size ▸ hw.size k c ((keyOf c).symm.trans h)

section Changes

variable {s : Strand Issued} {a : Act} {answer : a.Answer}

theorem Changes.fades (h : w.Changes u i s a answer) (apart : w.Apart u i)
    (ha : ¬ a.LeadsToCell) (j : Nat) : (w.errand j).Fades (u.errand j) := by
  by_cases hj : j = i
  · rw [hj, h.errand]
    exact Errand.fades_next ha
  · rw [apart j hj]
    exact ⟨.inr rfl, .inr rfl⟩

theorem Changes.keyOf (h : w.Changes u i s a answer) (ha : ¬ a.LeadsToCell) (c : Nat) :
    u.keyOf c = w.keyOf c := by
  have hnone : Event.keyOf? c ⟨i, s.run, a, answer⟩ = none := by
    cases a with
    | slots a =>
      cases a with
      | obtain => exact absurd trivial ha
      | _ => rfl
    | _ => rfl
  rw [keyOf_append h.log, hnone, Option.or_none]

/-- A strand comes to a cell by its key. -/
theorem Keyed.of_found (hw : w.Keyed) (h : w.Changes u i s a answer) (apart : w.Apart u i)
    (hat : u.errand i = .found k c) (hc : c < u.slots.cells.size) (hk : u.keyOf c = some k)
    (size : w.slots.cells.size ≤ u.slots.cells.size)
    (index : ∀ l d, u.slots.index.lookup l = some d →
      (l = k ∧ d = c) ∨ w.slots.index.lookup l = some d)
    (new : ∀ l d, Event.keyOf? d ⟨i, s.run, a, answer⟩ = some l → d = c) : u.Keyed where
  cell j d hd := by
    by_cases hj : j = i
    · rw [hj, hat] at hd
      cases hd
      exact hc
    · rw [apart j hj] at hd
      exact Nat.lt_of_lt_of_le (hw.cell j d hd) size
  key j l d hl hd := by
    by_cases hj : j = i
    · rw [hj, hat] at hl hd
      cases hl
      cases hd
      exact hk
    · rw [apart j hj] at hl hd
      exact keyOf_mono h.log (hw.key j l d hl hd)
  index l d hl := by
    obtain ⟨rfl, rfl⟩ | hl := index l d hl
    · exact hk
    · exact keyOf_mono h.log (hw.index l d hl)
  size l d hl := by
    rw [keyOf_append h.log] at hl
    obtain hold | ⟨-, hnew⟩ := Option.or_eq_some_iff.mp hl
    · exact Nat.lt_of_lt_of_le (hw.size l d hold) size
    · rw [new l d hnew]
      exact hc

/-- The cell of a key was there, or is new and belongs to the key. -/
theorem Keyed.obtain (hw : w.Keyed) (h : w.Changes u i s (.slots (.obtain k)) c)
    (apart : w.Apart u i) (fits : c = (w.slots.obtain k none).1)
    (slots : u.slots = (w.slots.obtain k none).2) : u.Keyed := by
  have hevent : Event.keyOf? c ⟨i, s.run, .slots (.obtain k), c⟩ = some k := if_pos rfl
  have hkey : u.keyOf c = some k := by
    rw [keyOf_append h.log, hevent]
    cases hold : w.keyOf c with
    | none => rfl
    | some l =>
      -- a cell that belongs to a key is not new
      cases hlook : w.slots.index.lookup k with
      | none =>
        rw [MutexTable.obtain_of_none hlook] at fits
        exact absurd fits (Nat.ne_of_lt (hw.size l c hold))
      | some d =>
        rw [MutexTable.obtain_of_some hlook] at fits
        have hd : c = d := fits
        rw [← hold, hd, hw.index k d hlook]
        rfl
  have hlook : u.slots.index.lookup k = some c := by
    rw [slots, MutexTable.lookup_obtain_self, fits]
  have hsize : w.slots.cells.size ≤ u.slots.cells.size := by
    rw [slots]
    exact MutexTable.size_le_obtain
  refine hw.of_found h apart h.errand ?_ hkey hsize (fun l d hl => ?_) fun l d hd => ?_
  · cases hold : w.slots.index.lookup k with
    | none =>
      rw [slots, fits, MutexTable.obtain_of_none hold, Array.size_push]
      exact Nat.lt_succ_self _
    | some d =>
      rw [MutexTable.obtain_of_some hold] at fits
      have hd : c = d := fits
      rw [hd]
      exact Nat.lt_of_lt_of_le (hw.lt hold) hsize
  · rw [slots, MutexTable.lookup_obtain] at hl
    split at hl
    · rename_i hlk
      cases hl
      exact .inl ⟨eq_of_beq hlk, fits.symm⟩
    · exact .inr hl
  · rw [Event.keyOf?] at hd
    split at hd
    · rename_i hcd
      exact hcd.symm
    · cases hd

theorem Keyed.find (hw : w.Keyed) {answer : Option Nat}
    (h : w.Changes u i s (.slots (.find k)) answer) (apart : w.Apart u i)
    (fits : answer = (w.slots.find k).1) (slots : u.slots = (w.slots.find k).2) : u.Keyed := by
  have hnone : ∀ d, Event.keyOf? d ⟨i, s.run, .slots (.find k), answer⟩ = none := fun _ => rfl
  have hkeyOf : ∀ d, u.keyOf d = w.keyOf d := by
    intro d
    rw [keyOf_append h.log, hnone, Option.or_none]
  cases hlook : w.slots.index.lookup k with
  | none =>
    rw [MutexTable.find_of_none hlook] at fits slots
    subst fits
    replace slots : u.slots = w.slots := slots
    have hlost : u.errand i = .lost k := h.errand
    refine ⟨fun j d hd => ?_, fun j l d hl hd => ?_, fun l d hl => ?_, fun l d hl => ?_⟩
    · by_cases hj : j = i
      · rw [hj, hlost] at hd
        cases hd
      · rw [apart j hj] at hd
        exact slots ▸ hw.cell j d hd
    · by_cases hj : j = i
      · rw [hj, hlost] at hd
        cases hd
      · rw [apart j hj] at hl hd
        exact (hkeyOf d).trans (hw.key j l d hl hd)
    · exact (hkeyOf d).trans (hw.index l d (slots ▸ hl))
    · exact slots ▸ hw.size l d ((hkeyOf d).symm.trans hl)
  | some c =>
    rw [MutexTable.find_of_some hlook] at fits slots
    subst fits
    have hsize : u.slots.cells.size = w.slots.cells.size := by
      rw [slots]
      exact MutexTable.size_modify
    refine hw.of_found h apart h.errand ?_ ((hkeyOf c).trans (hw.index k c hlook))
      (Nat.le_of_eq hsize.symm) (fun l d hl => ?_) fun l d hd => ?_
    · rw [hsize]
      exact hw.lt hlook
    · rw [slots, MutexTable.index_share] at hl
      exact .inr hl
    · cases hd

/-- A job comes to the cell of the strand that started it. -/
theorem Keyed.spawn {name value : String} {answer : Nat} (hw : w.Keyed)
    (h : w.Changes u i s (.spawn (.createRecord c name value)) answer)
    (apart : ∀ j, j ≠ i → j ≠ w.strands.length → u.errand j = w.errand j)
    (new : u.errand w.strands.length = .making (slotKey name value) c)
    (slots : u.slots = w.slots) : u.Keyed := by
  obtain ⟨d, name', value', hat, hjob⟩ := h.may
  obtain ⟨rfl, rfl, rfl⟩ := Job.createRecord.inj hjob
  have hkeyOf := h.keyOf (fun h => h.elim)
  have hcases : ∀ j, u.errand j = w.errand j ∨
      ((u.errand j).cell? = some c ∧ (u.errand j).key? = some (slotKey name value)) := by
    intro j
    by_cases hj : j = i
    · rw [hj, h.errand, hat]
      exact .inr ⟨rfl, rfl⟩
    · by_cases hlen : j = w.strands.length
      · rw [hlen, new]
        exact .inr ⟨rfl, rfl⟩
      · exact .inl (apart j hj hlen)
  have hcell : (w.errand i).cell? = some c := by rw [hat]; rfl
  have hkey : (w.errand i).key? = some (slotKey name value) := by rw [hat]; rfl
  refine ⟨fun j e he => ?_, fun j l e hl he => ?_, fun l e hl => ?_, fun l e hl => ?_⟩
  · rw [slots]
    obtain h | ⟨hc, -⟩ := hcases j
    · exact hw.cell j e (h ▸ he)
    · cases hc.symm.trans he
      exact hw.cell i c hcell
  · rw [hkeyOf]
    obtain h | ⟨hc, hk⟩ := hcases j
    · exact hw.key j l e (h ▸ hl) (h ▸ he)
    · cases hc.symm.trans he
      cases hk.symm.trans hl
      exact hw.key i _ c hkey hcell
  · exact (hkeyOf e).trans (hw.index l e (slots ▸ hl))
  · exact slots ▸ hw.size l e ((hkeyOf e).symm.trans hl)

end Changes

theorem Keyed.visit (hw : w.Keyed) (h : w.Visit u) : u.Keyed := by
  cases h with
  | calm errand _ slots log =>
    refine hw.of_fades (fun j => ?_) (by rw [slots]) (fun k c h => slots ▸ h) fun c => ?_
    · rw [errand]
      exact ⟨.inr rfl, .inr rfl⟩
    · rw [keyOf, keyOf, log]
  | enter _ _ _ errand _ _ _ slots log =>
    refine hw.of_fades (fun j => ?_) ?_ (fun k c h => ?_) fun c => ?_
    · rw [errand]
      exact ⟨.inr rfl, .inr rfl⟩
    · rw [slots, MutexTable.size_enter]
    · rw [slots, MutexTable.index_enter] at h
      exact h
    · rw [keyOf, keyOf, log]
  | got change apart _ _ slots =>
    exact hw.of_fades (change.fades apart fun h => h.elim) (by rw [slots])
      (fun k c h => slots ▸ h) (change.keyOf fun h => h.elim)
  | @gaveUp i c s change apart _ slots =>
    have hsame : u.slots.cells.size = w.slots.cells.size ∧ u.slots.index = w.slots.index := by
      rw [slots]
      split
      · exact ⟨MutexTable.size_modify, rfl⟩
      · exact ⟨MutexTable.size_leave, MutexTable.index_leave⟩
    exact hw.of_fades (change.fades apart fun h => h.elim) hsame.1.symm
      (fun k c h => hsame.2 ▸ h) (change.keyOf fun h => h.elim)
  | refused change apart _ slots =>
    exact hw.of_fades (change.fades apart fun h => h.elim) (by rw [slots])
      (fun k c h => slots ▸ h) (change.keyOf fun h => h.elim)
  | @act i s a answer change apart _ _ slots =>
    have hfade : ¬ (Act.slots a).LeadsToCell →
        w.slots.cells.size = u.slots.cells.size →
        (∀ k c, u.slots.index.lookup k = some c → w.slots.index.lookup k = some c) → u.Keyed :=
      fun ha size index => hw.of_fades (change.fades apart ha) size index (change.keyOf ha)
    have hremoved : ∀ k l c, (w.slots.remove k).index.lookup l = some c →
        w.slots.index.lookup l = some c := by
      intro k l c h
      rw [MutexTable.lookup_remove] at h
      split at h
      · cases h
      · exact h
    cases a with
    | obtain k => exact hw.obtain change apart change.tells slots
    | find k => exact hw.find change apart change.tells slots
    | share c =>
      refine hfade (fun h => h.elim) ?_ (fun k d h => ?_)
      · rw [slots]
        exact MutexTable.size_modify.symm
      · rw [slots] at h
        exact h
    | release c =>
      refine hfade (fun h => h.elim) ?_ (fun k d h => ?_)
      · rw [slots]
        exact MutexTable.size_modify.symm
      · rw [slots] at h
        exact h
    | put c v =>
      refine hfade (fun h => h.elim) ?_ (fun k d h => ?_)
      · rw [slots]
        exact MutexTable.size_modify.symm
      · rw [slots] at h
        exact h
    | value c =>
      refine hfade (fun h => h.elim) (by rw [slots]; rfl) (fun k d h => ?_)
      rw [slots] at h
      exact h
    | leave c =>
      refine hfade (fun h => h.elim) ?_ (fun k d h => ?_)
      · rw [slots]
        exact MutexTable.size_leave.symm
      · rw [slots] at h
        exact MutexTable.index_leave ▸ h
    | discard k c =>
      have hcases : u.slots = w.slots ∨ u.slots = w.slots.remove k := by
        obtain h | ⟨-, -, h⟩ := MutexTable.discard_cases (t := w.slots) (k := k) (c := c)
        · exact .inl (slots.trans h)
        · exact .inr (slots.trans h)
      refine hfade (fun h => h.elim) ?_ (fun l d h => ?_)
      · obtain h | h := hcases <;> rw [h]
        rfl
      · obtain h' | h' := hcases <;> rw [h'] at h
        · exact h
        · exact hremoved k l d h
    | remove k =>
      refine hfade (fun h => h.elim) (by rw [slots]; rfl) (fun l d h => ?_)
      rw [slots] at h
      exact hremoved k l d h
    | tryEnter | tidy => exact change.may.elim
  | spawn change apart _ _ new _ slots => exact hw.spawn change apart new slots
  | other change apart _ elsewhere slots =>
    have ha := elsewhere.not_leadsToCell
    exact hw.of_fades (change.fades apart ha) (by rw [slots]) (fun k c h => slots ▸ h)
      (change.keyOf ha)

end Weave

/-- **Cells belong to keys.** -/
theorem Contending.keyed {p : RenewalPractice} {requests : List (IssuanceRequest × LockMode)}
    {w : Weave Issued} (h : Contending p requests w) : w.Keyed := by
  unfold Contending at h
  induction h with
  | refl =>
    refine ⟨fun i c hc => ?_, fun i k c hk => ?_, nofun, nofun⟩
    · rw [Weave.errand_start] at hc
      cases hc
    · rw [Weave.errand_start] at hk
      cases hk
  | step reach step ih => exact ih.visit (Contending.visit reach step)

end CertSteward
