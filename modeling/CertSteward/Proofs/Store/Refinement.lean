import CertSteward.Proofs.Store.Saving
import CertSteward.Proofs.Time.Order
import CertSteward.Store.Store
import Mathlib.Data.List.Nodup
import Mathlib.Data.List.Perm.Basic

/-!
# A store in files answers like one in memory

A store in files mirrors one in memory while each record that is kept in memory is on a shelf of
its own: a directory named like the record, with its files in it, and nothing else lies next to
these directories. Every request keeps the two stores alike and is answered by both in the same
way. Records are listed by when they were made; where that tells different records apart, the
order in which the directories are found does not matter.

## Main definitions

* `FileTree.Shelf` — the directory of a record
* `FileStore.Mirrors` — a store in files and one in memory that are alike
* `StoreCall`, `RecordStore.replies` — what a store is asked, the account included, and its answers

## Main results

* `FileStore.Mirrors.save`, `FileStore.Mirrors.delete` — changes keep the stores alike
* `FileStore.Mirrors.list` — they list the same records in the same order
* `RecordStore.replies_files` — they answer alike as long as they are asked
-/

namespace CertSteward

/-! ### Lists of records -/

namespace CertificateRecord

variable {rs : List CertificateRecord} {r : CertificateRecord}

theorem mem_byAge : r ∈ byAge rs ↔ r ∈ rs := (List.mergeSort_perm rs _).mem_iff

theorem newest?_cons_cons (r s : CertificateRecord) (rs : List CertificateRecord) :
    newest? (r :: s :: rs) =
      newest? ((if r.createdAt ≤ s.createdAt then s else r) :: rs) := by
  change rs.foldl _ (if r.createdAt ≤ s.createdAt then some s else some r) = _
  split <;> rfl

/-- Of several records there is a newest. -/
theorem newest?_cons (r : CertificateRecord) (rs : List CertificateRecord) :
    ∃ n ∈ r :: rs, newest? (r :: rs) = some n ∧ ∀ s ∈ r :: rs, s.createdAt ≤ n.createdAt := by
  induction rs generalizing r with
  | nil => exact ⟨r, List.mem_cons_self, rfl, by simp⟩
  | cons s rs ih =>
    rw [newest?_cons_cons]
    split
    · rename_i hle
      obtain ⟨n, hmem, hn, hnewest⟩ := ih s
      refine ⟨n, List.mem_cons_of_mem _ hmem, hn, fun t ht => ?_⟩
      obtain rfl | ht := List.mem_cons.mp ht
      · exact Instant.le_trans hle (hnewest s List.mem_cons_self)
      · exact hnewest t ht
    · rename_i hnot
      obtain ⟨n, hmem, hn, hnewest⟩ := ih r
      have hr := hnewest r List.mem_cons_self
      refine ⟨n, List.cons_subset_cons r (List.subset_cons_self s rs) hmem, hn, fun t ht => ?_⟩
      obtain rfl | ht := List.mem_cons.mp ht
      · exact hr
      · obtain rfl | ht := List.mem_cons.mp ht
        · exact Instant.le_trans (Instant.le_of_lt (Instant.not_le.mp hnot)) hr
        · exact hnewest t (List.mem_cons_of_mem _ ht)

theorem newest?_of_mem (h : r ∈ rs) :
    ∃ n ∈ rs, newest? rs = some n ∧ ∀ s ∈ rs, s.createdAt ≤ n.createdAt := by
  cases rs with
  | nil => cases h
  | cons s rs => exact newest?_cons s rs

theorem mem_of_newest? (h : newest? rs = some r) : r ∈ rs := by
  cases rs with
  | nil => cases h
  | cons s rs =>
    obtain ⟨n, hmem, hn, -⟩ := newest?_cons s rs
    cases hn.symm.trans h
    exact hmem

end CertificateRecord

/-! ### The store in memory -/

namespace MemoryStore

variable {m : MemoryStore} {r s : CertificateRecord} {rs : List CertificateRecord}

theorem mem_put (h : (rs.map (·.id)).Nodup) :
    s ∈ put r rs ↔ s = r ∨ (s ∈ rs ∧ s.id ≠ r.id) := by
  induction rs with
  | nil => simp [put]
  | cons x rs ih =>
    simp only [List.map_cons, List.nodup_cons] at h
    rw [put]
    split
    · next hx =>
      have hother : s ∈ rs → s.id ≠ r.id := fun hs heq =>
        h.1 (List.mem_map.mpr ⟨s, hs, heq.trans hx.symm⟩)
      constructor
      · intro hs
        rcases List.mem_cons.mp hs with rfl | hs
        · exact .inl rfl
        · exact .inr ⟨List.mem_cons_of_mem _ hs, hother hs⟩
      · rintro (rfl | ⟨hs, hne⟩)
        · exact List.mem_cons_self
        · rcases List.mem_cons.mp hs with rfl | hs
          · exact absurd hx hne
          · exact List.mem_cons_of_mem _ hs
    · next hx =>
      rw [List.mem_cons, List.mem_cons, ih h.2]
      constructor
      · rintro (rfl | rfl | ⟨hs, hne⟩)
        · exact .inr ⟨.inl rfl, hx⟩
        · exact .inl rfl
        · exact .inr ⟨.inr hs, hne⟩
      · rintro (rfl | ⟨rfl | hs, hne⟩)
        · exact .inr (.inl rfl)
        · exact .inl rfl
        · exact .inr (.inr ⟨hs, hne⟩)

theorem nodup_put (h : (rs.map (·.id)).Nodup) : ((put r rs).map (·.id)).Nodup := by
  induction rs with
  | nil => simp [put]
  | cons x rs ih =>
    simp only [List.map_cons, List.nodup_cons] at h
    rw [put]
    split
    · next hx =>
      rw [hx] at h
      exact List.nodup_cons.mpr h
    · next hx =>
      refine List.nodup_cons.mpr ⟨fun hmem => ?_, ih h.2⟩
      obtain ⟨s, hs, heq⟩ := List.mem_map.mp hmem
      rcases (mem_put h.2).mp hs with rfl | ⟨hs, -⟩
      · exact hx heq.symm
      · exact h.1 (List.mem_map.mpr ⟨s, hs, heq⟩)

/-- A record is found by its name. -/
theorem load?_of_mem (h : (m.records.map (·.id)).Nodup) (hr : r ∈ m.records) :
    m.load? r.id = some r := by
  cases hload : m.load? r.id with
  | none =>
    have := List.find?_eq_none.mp hload r hr
    simp at this
  | some s =>
    have hid : s.id = r.id := by simpa using List.find?_some hload
    rw [List.inj_on_of_nodup_map h (List.mem_of_find?_eq_some hload) hr hid]

theorem load?_of_not_mem {id : String} (h : ∀ r ∈ m.records, r.id ≠ id) : m.load? id = none := by
  rw [load?, List.find?_eq_none]
  simpa using h

end MemoryStore

namespace FileTree

variable {t t' : FileTree} {d p q : FilePath} {x : String} {r : CertificateRecord}

/-- The directory of a record with its files in it. -/
structure Shelf (t : FileTree) (d : FilePath) (r : CertificateRecord) : Prop where
  keeps : t.Keeps d r r.key
  ready : t.Ready d
  entry : ∃ mode, t.entries.lookup d = some (.directory mode false)

/-- A change of nothing that is on the way to a shelf or on it. -/
theorem Shelf.congr (h : t.Shelf d r)
    (hway : ∀ q, q <+: d → t'.entries.lookup q = t.entries.lookup q)
    (hfiles : ∀ x, t'.entries.lookup (d ++ [x]) = t.entries.lookup (d ++ [x])) : t'.Shelf d r := by
  have hlocate : t'.locate d = t.locate d := locate_congr hway
  obtain ⟨⟨hdir, hrecord, hkey⟩, ⟨hopen, hchildren⟩, hentry⟩ := h
  refine ⟨⟨hdir.congr hlocate, hfiles _ ▸ hrecord, hfiles _ ▸ hkey⟩,
    ⟨hopen.congr hlocate, fun x e he => hchildren x e (hfiles x ▸ he)⟩, ?_⟩
  rw [hway d (List.prefix_refl d)]
  exact hentry

end FileTree

/-! ### Stores that are alike -/

namespace FileStore

open FileTree FileStep

variable {s : FileStore} {m : MemoryStore} {r : CertificateRecord} {id : String}

theorem isName_of_isStorable (h : isStorable id) (hfits : id.utf8ByteSize ≤ nameLimit) :
    IsName id := by
  have hall : ∀ c ∈ id.toList, (Chars.isAlnum c || c == '_' || c == '-') = true := by
    simp only [isStorable, Bool.and_eq_true, List.all_eq_true] at h
    exact h.2
  refine ⟨?_, fun hzero => ?_, hfits⟩
  · rintro rfl
    exact absurd (hall '/' (by decide)) (by decide)
  · exact absurd (hall _ hzero) (by decide)

/-- That a store in files is like one in memory. -/
structure Mirrors (s : FileStore) (m : MemoryStore) : Prop where
  distinct : s.tree.Distinct
  base : s.tree.IsOpen s.base
  records : s.tree.IsOpen s.recordsPath
  ids : (m.records.map (·.id)).Nodup
  storable : ∀ r ∈ m.records, isStorable r.id ∧ r.id.utf8ByteSize ≤ nameLimit
  readings : ∀ r ∈ m.records, r.HasReadings
  shelf : ∀ r ∈ m.records, s.tree.Shelf (s.recordsPath ++ [r.id]) r
  bare : ∀ x q, (∀ r ∈ m.records, r.id ≠ x) →
    s.tree.entries.lookup (s.recordsPath ++ x :: q) = none
  account : match m.account with
    | none => s.tree.entries.lookup s.accountPath = none
    | some text => ∃ mode, s.tree.entries.lookup s.accountPath =
        some (.file (Utf8.encode text) mode)

/-! ### Looking records up -/

theorem Mirrors.recordIn (h : s.Mirrors m) (hr : r ∈ m.records) :
    FileStore.recordIn s.tree (s.recordsPath ++ [r.id]) = .ok (some r) := by
  rw [(h.shelf r hr).keeps.recordIn (h.readings r hr)]
  rfl

/-- Both load the same. -/
theorem Mirrors.load (h : s.Mirrors m)
    (hid : isStorable id → id.utf8ByteSize ≤ nameLimit) : s.load id = .ok (m.load? id) := by
  by_cases hmem : ∃ r ∈ m.records, r.id = id
  · obtain ⟨r, hr, rfl⟩ := hmem
    rw [MemoryStore.load?_of_mem h.ids hr, FileStore.load, recordPath,
      if_pos (h.storable r hr).1]
    exact h.recordIn hr
  · have hnone : ∀ r ∈ m.records, r.id ≠ id := fun r hr heq => hmem ⟨r, hr, heq⟩
    rw [MemoryStore.load?_of_not_mem hnone, FileStore.load, recordPath]
    by_cases hstorable : isStorable id
    · have hbare : s.tree.Bare s.recordsPath id :=
        ⟨h.records, isName_of_isStorable hstorable (hid hstorable), h.bare id [] hnone, fun y => by
          rw [List.append_assoc]
          exact h.bare id [y] hnone⟩
      rw [if_pos hstorable]
      exact hbare.recordIn
    · rw [if_neg hstorable]

/-! ### Lists -/

theorem Mirrors.holds_records (h : s.Mirrors m) : s.tree.holds s.recordsPath = true := by
  obtain ⟨mode, hp⟩ := h.records
  rw [holds, hp]

theorem Mirrors.children (h : s.Mirrors m) :
    s.tree.children s.recordsPath = .ok (s.tree.below s.recordsPath) := by
  obtain ⟨mode, hp⟩ := h.records
  rw [FileTree.children, hp]

/-- What is read of a directory among the records is the record of that name. -/
theorem Mirrors.readable? (h : s.Mirrors m) {x : String} {e : FileEntry}
    (hlisted : (x, e) ∈ s.tree.below s.recordsPath) :
    ∃ r ∈ m.records, r.id = x ∧ s.readable? (x, e) = some r := by
  have hlookup := (h.distinct.mem_below x e).mp hlisted
  by_cases hmem : ∃ r ∈ m.records, r.id = x
  · obtain ⟨r, hr, rfl⟩ := hmem
    obtain ⟨mode, hentry⟩ := (h.shelf r hr).entry
    obtain rfl : e = .directory mode false := Option.some.inj (hlookup.symm.trans hentry)
    refine ⟨r, hr, rfl, ?_⟩
    rw [FileStore.readable?, h.recordIn hr]
    rfl
  · rw [h.bare x [] fun r hr heq => hmem ⟨r, hr, heq⟩] at hlookup
    cases hlookup

/-- The records that are found are those that are kept, in some order. -/
theorem Mirrors.perm (h : s.Mirrors m) :
    ((s.tree.below s.recordsPath).filterMap s.readable?).Perm m.records := by
  have hread : ∀ {x : String} {e : FileEntry} {r : CertificateRecord},
      (x, e) ∈ s.tree.below s.recordsPath → s.readable? (x, e) = some r →
        r ∈ m.records ∧ r.id = x := by
    intro x e r hlisted hr
    obtain ⟨r', hr', hid, hread⟩ := h.readable? hlisted
    obtain rfl := Option.some.inj (hread.symm.trans hr)
    exact ⟨hr', hid⟩
  refine (List.perm_ext_iff_of_nodup ?_ (List.Nodup.of_map _ h.ids)).mpr fun r => ?_
  · refine List.pairwise_filterMap.mpr ?_
    refine (List.pairwise_map.mp (h.distinct.nodup_below s.recordsPath)).imp_of_mem ?_
    rintro ⟨x, e⟩ ⟨y, f⟩ hx hy hne r hr r' hr' rfl
    exact hne ((hread hx hr).2.symm.trans (hread hy hr').2)
  · rw [List.mem_filterMap]
    constructor
    · rintro ⟨⟨x, e⟩, hlisted, hr⟩
      exact (hread hlisted hr).1
    · intro hr
      obtain ⟨mode, hentry⟩ := (h.shelf r hr).entry
      have hlisted := (h.distinct.mem_below r.id _).mpr hentry
      obtain ⟨r', hr', hid, hread⟩ := h.readable? hlisted
      obtain rfl := List.inj_on_of_nodup_map h.ids hr' hr hid
      exact ⟨_, hlisted, hread⟩

/-- Records that were made at different times are listed in one order. -/
theorem byAge_of_perm {rs rs' : List CertificateRecord} (hperm : rs.Perm rs')
    (hage : ∀ r ∈ rs', ∀ r' ∈ rs', r.createdAt = r'.createdAt → r = r') :
    CertificateRecord.byAge rs = CertificateRecord.byAge rs' := by
  have hsorted : ∀ rs, (CertificateRecord.byAge rs).Pairwise fun a b =>
      decide (a.createdAt ≤ b.createdAt) = true := by
    refine fun rs => List.pairwise_mergeSort (fun a b c hab hbc => ?_) (fun a b => ?_) rs
    · simp only [decide_eq_true_eq] at hab hbc ⊢
      exact Instant.le_trans hab hbc
    · simp only [Bool.or_eq_true, decide_eq_true_eq, Instant.le_def]
      omega
  have hmem : ∀ a, a ∈ CertificateRecord.byAge rs → a ∈ rs' := fun a ha =>
    hperm.mem_iff.mp ((List.mergeSort_perm rs _).mem_iff.mp ha)
  have hmem' : ∀ a, a ∈ CertificateRecord.byAge rs' → a ∈ rs' := fun a ha =>
    (List.mergeSort_perm rs' _).mem_iff.mp ha
  refine List.Perm.eq_of_pairwise (fun a b ha hb hab hba => ?_) (hsorted rs) (hsorted rs')
    (((List.mergeSort_perm rs _).trans hperm).trans (List.mergeSort_perm rs' _).symm)
  refine hage a (hmem a ha) b (hmem' b hb) ?_
  simp only [decide_eq_true_eq] at hab hba
  exact Instant.le_antisymm hab hba

/-- Both list the same. -/
theorem Mirrors.list (h : s.Mirrors m)
    (hage : ∀ r ∈ m.records, ∀ r' ∈ m.records, r.createdAt = r'.createdAt → r = r') :
    (RecordStore.files s).list = (RecordStore.memory m).list := by
  simp only [RecordStore.list, FileStore.list, h.holds_records, if_true, h.children, Except.map,
    byAge_of_perm h.perm hage]

/-! ### Changes -/

/-- A record whose name, dates and length of name a store can take. -/
structure Admissible (r : CertificateRecord) : Prop where
  storable : isStorable r.id
  fits : r.id.utf8ByteSize ≤ nameLimit
  readings : r.HasReadings

theorem accountPath_ne (s : FileStore) (q : FilePath) : s.accountPath ≠ s.recordsPath ++ q := by
  simp [accountPath, recordsPath]

theorem accountPath_apart (s : FileStore) (q : FilePath) :
    ¬ s.accountPath <+: s.recordsPath ++ q := by
  rintro ⟨r, hr⟩
  simp [accountPath, recordsPath] at hr

/-- Changes below one directory among the records leave the shelves of all others. -/
theorem Mirrors.shelf_congr (h : s.Mirrors m) {t' : FileTree} {x : String}
    (hframe : ∀ q, (∀ p, q ≠ s.recordsPath ++ x :: p) →
      t'.entries.lookup q = s.tree.entries.lookup q) {r : CertificateRecord} (hr : r ∈ m.records)
    (hne : r.id ≠ x) : t'.Shelf (s.recordsPath ++ [r.id]) r := by
  refine (h.shelf r hr).congr (fun q hq => hframe q fun p heq => ?_) fun y => hframe _ fun p heq => ?_
  · subst heq
    obtain ⟨q, hq⟩ := hq
    simp only [List.append_assoc, List.append_cancel_left_eq, List.cons_append, List.cons.injEq] at hq
    exact hne hq.1.symm
  · simp only [List.append_assoc, List.append_cancel_left_eq, List.cons_append, List.nil_append,
      List.cons.injEq] at heq
    exact hne heq.1

/-- Changes in the directory of one record leave the directories above. -/
theorem Mirrors.locate_congr (_h : s.Mirrors m) {t' : FileTree} {x : String}
    (hframe : ∀ q, (∀ p, q ≠ s.recordsPath ++ x :: p) →
      t'.entries.lookup q = s.tree.entries.lookup q) {p : FilePath} (hp : p <+: s.recordsPath) :
    t'.locate p = s.tree.locate p := by
  refine FileTree.locate_congr fun q hq => hframe q fun r heq => ?_
  have := (hq.trans hp).length_le
  rw [heq, List.length_append, List.length_cons] at this
  omega

/-- What stands at the place of a record: its shelf, or nothing. -/
theorem Mirrors.place (h : s.Mirrors m) (id : String) :
    (∀ e, s.tree.entries.lookup (s.recordsPath ++ [id]) = some e →
      ∃ mode, e = .directory mode false) ∧
    ∀ y e, s.tree.entries.lookup (s.recordsPath ++ [id] ++ [y]) = some e →
      e.isDirectory = false := by
  by_cases hmem : ∃ r ∈ m.records, r.id = id
  · obtain ⟨r, hr, rfl⟩ := hmem
    obtain ⟨mode, hentry⟩ := (h.shelf r hr).entry
    exact ⟨fun e he => ⟨mode, Option.some.inj (he.symm.trans hentry)⟩, (h.shelf r hr).ready.files⟩
  · have hnone : ∀ r ∈ m.records, r.id ≠ id := fun r hr heq => hmem ⟨r, hr, heq⟩
    constructor
    · intro e he
      rw [h.bare id [] hnone] at he
      cases he
    · intro y e he
      rw [List.append_assoc, List.singleton_append, h.bare id [y] hnone] at he
      cases he

/-- Saving a record keeps the stores alike. -/
theorem Mirrors.save (h : s.Mirrors m) (hr : Admissible r) :
    ∃ s', s.save r = (.ok (), s') ∧ s'.Mirrors (m.save r) := by
  obtain ⟨hfree, hfiles⟩ := h.place r.id
  obtain ⟨t', hrun, hkeeps, hready, hentry, hsame, hdistinct⟩ :=
    saveSteps_run h.records (isName_of_isStorable hr.storable hr.fits) hfree hfiles r
  have hframe : ∀ q, (∀ p, q ≠ s.recordsPath ++ r.id :: p) →
      t'.entries.lookup q = s.tree.entries.lookup q := by
    refine fun q hq => hsame q (hq []) fun y => ?_
    rw [List.append_assoc]
    exact hq [y]
  have hself : r ∈ MemoryStore.put r m.records := (MemoryStore.mem_put h.ids).mpr (.inl rfl)
  refine ⟨{ s with tree := t' }, ?_, ?_⟩
  · rw [FileStore.save, recordPath, if_pos hr.storable]
    simp only [hrun]
    rfl
  refine
    { distinct := hdistinct h.distinct
      base := h.base.congr (h.locate_congr hframe (List.prefix_append _ _))
      records := h.records.congr (h.locate_congr hframe (List.prefix_refl _))
      ids := MemoryStore.nodup_put h.ids
      storable := fun r' hr' => ?_
      readings := fun r' hr' => ?_
      shelf := fun r' hr' => ?_
      bare := fun x q hx => ?_
      account := ?_ }
  · rcases (MemoryStore.mem_put h.ids).mp hr' with rfl | ⟨hr', -⟩
    · exact ⟨hr.storable, hr.fits⟩
    · exact h.storable r' hr'
  · rcases (MemoryStore.mem_put h.ids).mp hr' with rfl | ⟨hr', -⟩
    · exact hr.readings
    · exact h.readings r' hr'
  · rcases (MemoryStore.mem_put h.ids).mp hr' with rfl | ⟨hr', hne⟩
    · exact ⟨hkeeps, hready, hentry⟩
    · exact h.shelf_congr hframe hr' hne
  · have hne : r.id ≠ x := hx r hself
    have hother : ∀ p, s.recordsPath ++ x :: q ≠ s.recordsPath ++ r.id :: p := fun p heq => by
      simp only [List.append_cancel_left_eq, List.cons.injEq] at heq
      exact hne heq.1.symm
    refine (hframe _ hother).trans (h.bare x q fun r' hr' heq => ?_)
    by_cases hsame : r'.id = r.id
    · exact hne (hsame.symm.trans heq)
    · exact hx r' ((MemoryStore.mem_put h.ids).mpr (.inr ⟨hr', hsame⟩)) heq
  · have hlookup : t'.entries.lookup s.accountPath = s.tree.entries.lookup s.accountPath :=
      hframe _ fun p => accountPath_ne s _
    have haccount := h.account
    rw [← hlookup] at haccount
    exact haccount

/-- Removing a record keeps the stores alike. -/
theorem Mirrors.delete (h : s.Mirrors m) (hid : isStorable id)
    (hfits : id.utf8ByteSize ≤ nameLimit) :
    ∃ s', s.delete id = (.ok (m.delete id).1, s') ∧ s'.Mirrors (m.delete id).2 := by
  have hname := isName_of_isStorable hid hfits
  have hlocate := h.records.locate_concat hname
  by_cases hmem : ∃ r ∈ m.records, r.id = id
  · obtain ⟨r, hr, rfl⟩ := hmem
    obtain ⟨mode, hentry⟩ := (h.shelf r hr).entry
    rw [hentry] at hlocate
    have hframe : ∀ q, (∀ p, q ≠ s.recordsPath ++ r.id :: p) →
        (s.tree.without (s.recordsPath ++ [r.id])).entries.lookup q =
          s.tree.entries.lookup q := by
      intro q hq
      rw [lookup_without, if_neg]
      rintro ⟨p, rfl⟩
      exact hq p (by simp)
    have hmem' : ∀ r', r' ∈ (m.delete r.id).2.records ↔ r' ∈ m.records ∧ r'.id ≠ r.id := by
      simp [MemoryStore.delete]
    refine ⟨{ s with tree := s.tree.without (s.recordsPath ++ [r.id]) }, ?_, ?_⟩
    · rw [FileStore.delete, recordPath, if_pos hid]
      simp only [holds, hlocate, if_true, removeAll, MemoryStore.delete,
        MemoryStore.load?_of_mem h.ids hr, Option.isSome_some]
    refine
      { distinct := h.distinct.without _
        base := h.base.congr (h.locate_congr hframe (List.prefix_append _ _))
        records := h.records.congr (h.locate_congr hframe (List.prefix_refl _))
        ids := List.Nodup.sublist (List.filter_sublist.map _) h.ids
        storable := fun r' hr' => h.storable r' ((hmem' r').mp hr').1
        readings := fun r' hr' => h.readings r' ((hmem' r').mp hr').1
        shelf := fun r' hr' => h.shelf_congr hframe ((hmem' r').mp hr').1 ((hmem' r').mp hr').2
        bare := fun x q hx => ?_
        account := ?_ }
    · by_cases hx' : x = r.id
      · subst hx'
        have hstart : s.recordsPath ++ [r.id] <+: s.recordsPath ++ r.id :: q := ⟨q, by simp⟩
        exact (lookup_without _ _ _).trans (if_pos hstart)
      · refine (hframe (s.recordsPath ++ x :: q) fun p heq => ?_).trans
          (h.bare x q fun r' hr' heq => ?_)
        · simp only [List.append_cancel_left_eq, List.cons.injEq] at heq
          exact hx' heq.1
        · exact hx r' ((hmem' r').mpr ⟨hr', fun hsame => hx' (heq.symm.trans hsame)⟩) heq
    · have hlookup := hframe s.accountPath fun p => accountPath_ne s _
      have haccount := h.account
      rw [← hlookup] at haccount
      exact haccount
  · have hnone : ∀ r ∈ m.records, r.id ≠ id := fun r hr heq => hmem ⟨r, hr, heq⟩
    rw [h.bare id [] hnone] at hlocate
    have hall : m.records.filter (fun r => r.id ≠ id) = m.records :=
      List.filter_eq_self.mpr fun r hr => by simpa using hnone r hr
    refine ⟨s, ?_, ?_⟩
    · rw [FileStore.delete, recordPath, if_pos hid]
      simp only [holds, hlocate, Bool.false_eq_true, if_false, MemoryStore.delete,
        MemoryStore.load?_of_not_mem hnone, Option.isSome_none]
    · simpa only [MemoryStore.delete, hall] using h

/-! ### The account -/

theorem isName_account : IsName "credentials.json" := ⟨by decide, by decide, by decide⟩

/-- Both know the same account. -/
theorem Mirrors.account_eq (h : s.Mirrors m) : s.account = .ok m.account := by
  have hkept := h.account
  rw [FileStore.account]
  cases haccount : m.account with
  | none =>
    rw [haccount] at hkept
    rw [accountPath, h.base.isDirectory.readText?_missing isName_account hkept]
    rfl
  | some text =>
    rw [haccount] at hkept
    obtain ⟨mode, hentry⟩ := hkept
    rw [accountPath, h.base.isDirectory.readText?_file isName_account hentry]
    rfl

/-- Saving the account keeps the stores alike. -/
theorem Mirrors.saveAccount (h : s.Mirrors m) (text : String) :
    ∃ s', s.saveAccount text = (.ok (), s') ∧ s'.Mirrors { m with account := some text } := by
  have hfile : ∀ e, s.tree.entries.lookup s.accountPath = some e → e.isDirectory = false := by
    intro e he
    have hkept := h.account
    cases haccount : m.account with
    | none => rw [haccount] at hkept; rw [hkept] at he; cases he
    | some old =>
      rw [haccount] at hkept
      obtain ⟨mode, hentry⟩ := hkept
      rw [hentry] at he
      cases he
      rfl
  obtain ⟨t₁, mode, hwrite, hsets⟩ := write_sets h.base isName_account hfile (Utf8.encode text)
  have hopen : t₁.IsOpen s.base := h.base.congr (hsets.locate (not_below_itself _ _))
  obtain ⟨t', hrestrict, hsets'⟩ := restrict_sets hopen isName_account hsets.self ownFile
  have hframe : ∀ q, t'.entries.lookup (s.recordsPath ++ q) =
      s.tree.entries.lookup (s.recordsPath ++ q) := fun q => by
    have hne := Ne.symm (accountPath_ne s q)
    rw [hsets'.frame _ hne, hsets.frame _ hne]
  have hlocate : ∀ p, p <+: s.recordsPath → t'.locate p = s.tree.locate p := by
    intro p hp
    have hne : ¬ s.accountPath <+: p := fun hq => by
      have := hq.trans hp
      rw [← List.append_nil s.recordsPath] at this
      exact accountPath_apart s [] this
    rw [hsets'.locate hne, hsets.locate hne]
  refine ⟨{ s with tree := t' }, ?_, ?_⟩
  · have hrun : runAll s.tree [.write s.accountPath text, .restrict s.accountPath ownFile] =
        (.ok (), t') := runAll_cons.mpr ⟨t₁, hwrite, runAll_cons.mpr ⟨t', hrestrict, rfl⟩⟩
    rw [FileStore.saveAccount, hrun]
    rfl
  refine
    { distinct := hsets'.distinct (hsets.distinct h.distinct)
      base := h.base.congr (hlocate _ (List.prefix_append _ _))
      records := h.records.congr (hlocate _ (List.prefix_refl _))
      ids := h.ids
      storable := h.storable
      readings := h.readings
      shelf := fun r hr => (h.shelf r hr).congr (fun q hq => ?_) fun x => ?_
      bare := fun x q hx => (hframe _).trans (h.bare x q hx)
      account := ⟨ownFile, hsets'.self⟩ }
  · have hne : q ≠ s.accountPath := by
      rintro rfl
      exact accountPath_apart s _ hq
    exact (hsets'.frame q hne).trans (hsets.frame q hne)
  · have := hframe ([r.id] ++ [x])
    rwa [← List.append_assoc] at this

/-! ### New stores -/

theorem isName_records : IsName "records" := ⟨by decide, by decide, by decide⟩

/-- That there is no store yet at a place: nothing where it keeps its records and its account. -/
structure Vacant (t : FileTree) (base : FilePath) : Prop where
  distinct : t.Distinct
  records : ∀ q, t.entries.lookup (base ++ "records" :: q) = none
  account : t.entries.lookup (base ++ ["credentials.json"]) = none

/-- A store that has been made where there was none is like an empty one in memory. -/
theorem mirrors_of_openAt {t : FileTree} {base : FilePath} (hvacant : Vacant t base)
    (hopen : openAt t base = (.ok (), s)) : s.Mirrors {} := by
  rw [openAt] at hopen
  simp only [recordsPath, Prod.mk.injEq] at hopen
  obtain ⟨hok, rfl⟩ := hopen
  cases hrun : runAll t [.makeDirectories (base ++ ["records"]), .restrict base ownDirectory,
      .restrict (base ++ ["records"]) ownDirectory] with
  | mk result t' =>
    rw [hrun] at hok
    cases result with
    | error fault => cases hok
    | ok _ =>
      obtain ⟨t₁, hmake, hrest⟩ := runAll_cons.mp hrun
      obtain ⟨t₂, hbase, hrest⟩ := runAll_cons.mp hrest
      obtain ⟨t₃, hrecords, hend⟩ := runAll_cons.mp hrest
      cases hend
      obtain ⟨hopen, hopen', hframe, hdistinct⟩ :=
        isOpen_of_makeDirectories isName_records (hvacant.records []) hmake
      have hlookup : ∀ q, ¬ q <+: base ++ ["records"] → t.entries.lookup q = none →
          t'.entries.lookup q = none := by
        intro q hq hnone
        have hne : q ≠ base ++ ["records"] := by rintro rfl; exact hq (List.prefix_refl _)
        have hne' : q ≠ base := by rintro rfl; exact hq (List.prefix_append _ _)
        rw [(sets_of_restrict hrecords).frame q hne, (sets_of_restrict hbase).frame q hne',
          hframe q hq, hnone]
      refine
        { distinct := (sets_of_restrict hrecords).distinct
            ((sets_of_restrict hbase).distinct (hdistinct hvacant.distinct))
          base := (hopen.restrict hbase).restrict hrecords
          records := (hopen'.restrict hbase).restrict hrecords
          ids := List.nodup_nil
          storable := by simp
          readings := by simp
          shelf := by simp
          bare := fun x q _ => ?_
          account := hlookup _ (fun hq => ?_) hvacant.account }
      · show t'.entries.lookup (base ++ ["records"] ++ x :: q) = none
        refine hlookup _ (fun hq => ?_) ?_
        · have := hq.length_le
          simp only [List.length_append, List.length_cons, List.length_nil] at this
          omega
        · rw [List.append_assoc]
          exact hvacant.records (x :: q)
      · obtain ⟨q, hq⟩ := hq
        simp [accountPath] at hq

end FileStore

/-! ### Requests -/

/-- What a store is asked, the account included. -/
inductive StoreCall
  | request (r : StoreRequest)
  | account
  | saveAccount (text : String)

namespace StoreCall

/-- The answer. -/
@[reducible] def Reply : StoreCall → Type
  | request r => r.Reply
  | account => Except StoreError (Option String)
  | saveAccount _ => Except StoreError Unit

/-- That the files of a store can take what is asked: records and names of records are as they may
be, and no name is longer than that of a file. -/
def Admissible : StoreCall → Prop
  | request (.save r) => FileStore.Admissible r
  | request (.delete id) =>
    FileStore.isStorable id ∧ id.utf8ByteSize ≤ FileTree.nameLimit
  | request (.load id) | request (.resolve id) =>
    FileStore.isStorable id → id.utf8ByteSize ≤ FileTree.nameLimit
  | request .list | request (.find _) | account | saveAccount _ => True

end StoreCall

namespace RecordStore

/-- What a store answers, the account included. -/
def serve (s : RecordStore) : (c : StoreCall) → c.Reply × RecordStore
  | .request r => s.answer r
  | .account => (s.account, s)
  | .saveAccount text => s.saveAccount text

/-- What a store answers one after the other. -/
def replies (s : RecordStore) : List StoreCall → List (Σ c : StoreCall, c.Reply)
  | [] => []
  | c :: cs => ⟨c, (s.serve c).1⟩ :: (s.serve c).2.replies cs

open FileStore

variable {s : FileStore} {m : MemoryStore}

/-- That records which were made at the same time are one. -/
def Dated (P : CertificateRecord → Prop) : Prop :=
  ∀ r r', P r → P r' → r.createdAt = r'.createdAt → r.id = r'.id

theorem find_files (h : s.Mirrors m)
    (hage : ∀ r ∈ m.records, ∀ r' ∈ m.records, r.createdAt = r'.createdAt → r = r')
    (domain : String) : (files s).find domain = (memory m).find domain := by
  rw [find, find, h.list hage]

/-- Two stores that are alike answer alike, and stay alike. -/
theorem serve_files (h : s.Mirrors m) {P : CertificateRecord → Prop} (hP : Dated P)
    (hkept : ∀ r ∈ m.records, P r) {c : StoreCall} (hc : c.Admissible)
    (hsave : ∀ r, c = .request (.save r) → P r) :
    ((files s).serve c).1 = ((memory m).serve c).1 ∧
      ∃ s' m', ((files s).serve c).2 = files s' ∧ ((memory m).serve c).2 = memory m' ∧
        s'.Mirrors m' ∧ ∀ r ∈ m'.records, P r := by
  have hage : ∀ r ∈ m.records, ∀ r' ∈ m.records, r.createdAt = r'.createdAt → r = r' :=
    fun r hr r' hr' hcreated =>
      List.inj_on_of_nodup_map h.ids hr hr' (hP r r' (hkept r hr) (hkept r' hr') hcreated)
  cases c with
  | request r =>
    cases r with
    | save r =>
      obtain ⟨s', hsaved, hmirrors⟩ := h.save hc
      refine ⟨?_, s', m.save r, ?_, rfl, hmirrors, fun r' hr' => ?_⟩
      · simp only [serve, answer, RecordStore.save, hsaved]
        rfl
      · simp only [serve, answer, RecordStore.save, hsaved]
        rfl
      · rcases (MemoryStore.mem_put h.ids).mp hr' with rfl | ⟨hr', -⟩
        · exact hsave _ rfl
        · exact hkept r' hr'
    | load id => exact ⟨h.load hc, s, m, rfl, rfl, h, hkept⟩
    | list => exact ⟨h.list hage, s, m, rfl, rfl, h, hkept⟩
    | delete id =>
      obtain ⟨s', hdeleted, hmirrors⟩ := h.delete hc.1 hc.2
      refine ⟨?_, s', (m.delete id).2, ?_, rfl, hmirrors, fun r' hr' => ?_⟩
      · simp only [serve, answer, RecordStore.delete, hdeleted]
        rfl
      · simp only [serve, answer, RecordStore.delete, hdeleted]
        rfl
      · exact hkept r' (List.mem_filter.mp hr').1
    | find domain => exact ⟨find_files h hage domain, s, m, rfl, rfl, h, hkept⟩
    | resolve name =>
      refine ⟨?_, s, m, rfl, rfl, h, hkept⟩
      show (files s).resolve name = (memory m).resolve name
      rw [resolve, resolve, find_files h hage, RecordStore.load, RecordStore.load, h.load hc]
  | account => exact ⟨h.account_eq, s, m, rfl, rfl, h, hkept⟩
  | saveAccount text =>
    obtain ⟨s', hsaved, hmirrors⟩ := h.saveAccount text
    refine ⟨?_, s', { m with account := some text }, ?_, rfl, hmirrors, hkept⟩
    · simp only [serve, RecordStore.saveAccount, hsaved]
      rfl
    · simp only [serve, RecordStore.saveAccount, hsaved]
      rfl

/-- Two stores that are alike answer alike as long as they are asked. -/
theorem replies_of_mirrors (h : s.Mirrors m) {P : CertificateRecord → Prop} (hP : Dated P)
    (hkept : ∀ r ∈ m.records, P r) {cs : List StoreCall} (hcs : ∀ c ∈ cs, c.Admissible)
    (hsaves : ∀ r, .request (.save r) ∈ cs → P r) :
    (files s).replies cs = (memory m).replies cs := by
  induction cs generalizing s m with
  | nil => rfl
  | cons c cs ih =>
    obtain ⟨hreply, s', m', hs', hm', hmirrors, hkept'⟩ := serve_files h hP hkept
      (hcs c List.mem_cons_self) fun r hr => hsaves r (hr ▸ List.mem_cons_self)
    rw [replies, replies, hreply, hs', hm', ih hmirrors hkept'
      (fun c hc => hcs c (List.mem_cons_of_mem _ hc))
      fun r hr => hsaves r (List.mem_cons_of_mem _ hr)]

/-- A store in files that has been made where there was none answers like an empty one in memory,
as long as it is asked what its files can take and records are told apart by when they were made.
Under no other name is anything stored, removed or looked for. -/
theorem replies_files {t : FileTree} {base : FilePath} (hvacant : Vacant t base)
    (hopen : openAt t base = (.ok (), s)) {cs : List StoreCall} (hcs : ∀ c ∈ cs, c.Admissible)
    (hdates : Dated fun r => .request (.save r) ∈ cs) :
    (files s).replies cs = (memory {}).replies cs ∧
      ∀ (s : FileStore) (id : String), ¬ isStorable id →
        (∀ r, r.id = id → s.save r = (.error (.invalidId id), s)) ∧
          s.delete id = (.error (.invalidId id), s) ∧ s.load id = .ok none := by
  refine ⟨replies_of_mirrors (mirrors_of_openAt hvacant hopen) hdates (by simp) hcs
    fun r hr => hr, fun s id hid => ⟨?_, ?_, ?_⟩⟩
  · rintro r rfl
    rw [FileStore.save, recordPath, if_neg hid]
  · rw [FileStore.delete, recordPath, if_neg hid]
  · rw [FileStore.load, recordPath, if_neg hid]

/-- A record with all its material. -/
def issuedRecord : CertificateRecord where
  id := "cert_1"
  primaryDomain := "example.com"
  certificate := "CERTIFICATE"
  chain := "CHAIN"
  key := ⟨"KEY"⟩
  issuedAt := some ⟨1704153600, 500000000⟩
  expiresAt := some ⟨1711929600, 0⟩
  autoRenew := true
  status := .issued
  createdAt := ⟨1704067200, 0⟩
  updatedAt := ⟨1704153600, 0⟩

/-- `issuedRecord` with its material erased. -/
def erasedRecord : CertificateRecord :=
  { issuedRecord with certificate := "", chain := "", key := .none, status := .failed }

/-- The record is saved, saved again with less in it, looked for in all ways and removed. -/
def sampleCalls : List StoreCall :=
  [.request (.save issuedRecord), .request (.load "cert_1"), .request (.save erasedRecord),
    .request (.load "cert_1"), .request .list, .request (.find "Example.com."),
    .request (.resolve "cert_1"), .saveAccount "account", .account, .request (.delete "cert_1"),
    .request .list]

theorem replies_sampleCalls : Vacant {} ["data"] ∧
    openAt {} ["data"] = (.ok (), (openAt {} ["data"]).2) ∧
    (∀ c ∈ sampleCalls, c.Admissible) ∧ Dated (fun r => .request (.save r) ∈ sampleCalls) ∧
    (files (openAt {} ["data"]).2).replies sampleCalls = (memory {}).replies sampleCalls := by
  have hvacant : Vacant {} ["data"] := ⟨List.nodup_nil, fun _ => rfl, rfl⟩
  have hreadings : ∀ a ∈ issuedRecord.issuedAt, a.IsReading := by
    rintro a ⟨⟩
    exact ⟨by decide, by decide, by decide⟩
  have hreadings' : ∀ a ∈ issuedRecord.expiresAt, a.IsReading := by
    rintro a ⟨⟩
    exact ⟨by decide, by decide, by decide⟩
  have hissued : Admissible issuedRecord := ⟨by decide, by decide, hreadings, hreadings',
    ⟨by decide, by decide, by decide⟩, ⟨by decide, by decide, by decide⟩⟩
  have herased : Admissible erasedRecord := ⟨by decide, by decide, hreadings, hreadings',
    ⟨by decide, by decide, by decide⟩, ⟨by decide, by decide, by decide⟩⟩
  have hname : isStorable "cert_1" ∧ "cert_1".utf8ByteSize ≤ FileTree.nameLimit := by decide
  have hcs : ∀ c ∈ sampleCalls, c.Admissible := by
    simp only [sampleCalls, List.forall_mem_cons, StoreCall.Admissible]
    exact ⟨hissued, fun _ => hname.2, herased, fun _ => hname.2, trivial, trivial, fun _ => hname.2,
      trivial, trivial, hname, trivial, by simp⟩
  have hdates : Dated fun r => .request (.save r) ∈ sampleCalls := by
    intro r r' hr hr' _
    simp only [sampleCalls, List.mem_cons, StoreCall.request.injEq, StoreRequest.save.injEq,
      reduceCtorEq, List.not_mem_nil, or_false, false_or] at hr hr'
    rcases hr with rfl | rfl <;> rcases hr' with rfl | rfl <;> rfl
  exact ⟨hvacant, rfl, hcs, hdates, (replies_files hvacant rfl hcs hdates).1⟩

end RecordStore

end CertSteward
