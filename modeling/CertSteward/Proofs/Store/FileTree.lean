import CertSteward.Store.FileTree

/-!
# What an action on a tree of files changes

What is at a path depends on the entries on the way down to it and on nothing else. An action in a
directory that is there either sets the one entry it is about and leaves all others, or takes a
directory out with all that is below it; so what is at any other path stays.

## Main definitions

* `FileTree.Distinct` — trees in which each path stands once
* `FileTree.IsName` — the names that a file or directory can have
* `FileTree.Sets` — a change of one entry

## Main results

* `FileTree.locate_concat` — what is at a path in a directory
* `FileTree.locate_congr` — what is at a path depends on the way down
* `FileTree.makeDirectories_sets`, `FileTree.write_sets`, `FileTree.restrict_sets`,
  `FileTree.removeFile_sets` — what the actions in a directory do
* `FileTree.sets_of_write`, `FileTree.sets_of_restrict`, `FileTree.sets_of_removeFile` — what those
  that succeeded have done, wherever it was
* `FileTree.lookup_without` — what is left when a directory is removed
-/

namespace CertSteward

/-- A list of entries without those of some keys has the others as before. -/
theorem lookup_filter {κ ν : Type} [BEq κ] [LawfulBEq κ] {q : κ} (l : List (κ × ν))
    (keep : κ → Bool) :
    (l.filter fun a => keep a.1).lookup q = if keep q then l.lookup q else none := by
  induction l with
  | nil => simp
  | cons a l ih =>
    obtain ⟨p, d⟩ := a
    rw [List.filter_cons]
    by_cases hp : keep p
    · rw [if_pos hp, List.lookup_cons, List.lookup_cons, ih]
      by_cases hq : q = p
      · subst hq; simp [hp]
      · rw [beq_false_of_ne hq]
    · rw [if_neg hp, ih, List.lookup_cons]
      by_cases hq : q = p
      · subst hq; simp [hp]
      · rw [beq_false_of_ne hq]

namespace FileTree

variable {t t' : FileTree} {p q : FilePath} {x : String} {e : FileEntry}

/-! ### Entries -/

/-- Each path stands in the tree once. -/
def Distinct (t : FileTree) : Prop := (t.entries.map Prod.fst).Nodup

theorem mem_of_lookup {l : List (FilePath × FileEntry)} (h : l.lookup p = some e) :
    (p, e) ∈ l := by
  induction l with
  | nil => cases h
  | cons a l ih =>
    obtain ⟨q, d⟩ := a
    rw [List.lookup_cons] at h
    split at h
    · next hq =>
      cases h
      rw [eq_of_beq hq]
      exact List.mem_cons_self
    · exact List.mem_cons_of_mem _ (ih h)

theorem Distinct.lookup (h : t.Distinct) (hmem : (p, e) ∈ t.entries) :
    t.entries.lookup p = some e := by
  have key : ∀ l : List (FilePath × FileEntry), (l.map Prod.fst).Nodup → (p, e) ∈ l →
      l.lookup p = some e := by
    intro l
    induction l with
    | nil => intro _ hmem; cases hmem
    | cons a l ih =>
      obtain ⟨q, d⟩ := a
      intro hnodup hmem
      simp only [List.map_cons, List.nodup_cons] at hnodup
      rcases List.mem_cons.mp hmem with heq | htail
      · cases heq
        simp
      · have hne : p ≠ q := by
          rintro rfl
          exact hnodup.1 (List.mem_map.mpr ⟨(p, e), htail, rfl⟩)
        rw [List.lookup_cons, beq_false_of_ne hne]
        exact ih hnodup.2 htail
  exact key _ h hmem

/-- A change of the entry with one path: it is set to `v`, and all others stay. -/
structure Sets (t : FileTree) (p : FilePath) (v : Option FileEntry) (t' : FileTree) : Prop where
  self : t'.entries.lookup p = v
  frame : ∀ q ≠ p, t'.entries.lookup q = t.entries.lookup q
  distinct : t.Distinct → t'.Distinct

theorem Sets.refl (t : FileTree) (p : FilePath) : t.Sets p (t.entries.lookup p) t :=
  ⟨rfl, fun _ _ => rfl, id⟩

theorem sets_cons (h : t.entries.lookup p = none) (e : FileEntry) :
    t.Sets p (some e) ⟨(p, e) :: t.entries⟩ where
  self := by simp
  frame q hq := by rw [List.lookup_cons, beq_false_of_ne hq]
  distinct hd := by
    refine List.nodup_cons.mpr ⟨fun hmem => ?_, hd⟩
    obtain ⟨⟨q, d⟩, ha, rfl⟩ := List.mem_map.mp hmem
    rw [hd.lookup ha] at h
    cases h

theorem lookup_map_change (l : List (FilePath × FileEntry)) (p q : FilePath)
    (f : FileEntry → FileEntry) :
    (l.map fun (q, e) => if q = p then (q, f e) else (q, e)).lookup q =
      if q = p then (l.lookup p).map f else l.lookup q := by
  induction l with
  | nil => simp
  | cons a l ih =>
    obtain ⟨r, d⟩ := a
    rw [List.map_cons]
    by_cases hr : r = p
    · subst hr
      simp only [if_pos]
      by_cases hq : q = r
      · subst hq; simp
      · rw [List.lookup_cons, beq_false_of_ne hq, ih, if_neg hq, if_neg hq, List.lookup_cons,
          beq_false_of_ne hq]
    · simp only [if_neg hr]
      by_cases hq : q = r
      · subst hq; simp [hr]
      · rw [List.lookup_cons, beq_false_of_ne hq, ih, List.lookup_cons, List.lookup_cons,
          beq_false_of_ne hq, beq_false_of_ne (Ne.symm hr)]

theorem sets_change (t : FileTree) (p : FilePath) (f : FileEntry → FileEntry) :
    t.Sets p ((t.entries.lookup p).map f) (t.change p f) := by
  refine ⟨by rw [change, lookup_map_change, if_pos rfl],
    fun q hq => by rw [change, lookup_map_change, if_neg hq], fun hd => ?_⟩
  have hpaths : (t.change p f).entries.map Prod.fst = t.entries.map Prod.fst := by
    rw [change, List.map_map]
    refine List.map_congr_left fun a _ => ?_
    simp only [Function.comp_apply]
    split <;> rfl
  rw [Distinct, hpaths]
  exact hd

theorem Distinct.filter (h : t.Distinct) (keep : FilePath × FileEntry → Bool) :
    Distinct ⟨t.entries.filter keep⟩ :=
  List.Nodup.sublist (List.filter_sublist.map Prod.fst) h

theorem sets_filter (t : FileTree) (p : FilePath) :
    t.Sets p none ⟨t.entries.filter fun (q, _) => q ≠ p⟩ := by
  have hlookup := fun q => lookup_filter (q := q) t.entries fun r => decide (r ≠ p)
  refine ⟨by simpa using hlookup p, fun q hq => ?_, fun hd => hd.filter _⟩
  simpa [hq] using hlookup q

/-- What is left when a directory is removed. -/
theorem lookup_without (t : FileTree) (p q : FilePath) :
    (t.without p).entries.lookup q = if p <+: q then none else t.entries.lookup q := by
  have hlookup := lookup_filter (q := q) t.entries fun r => !p.isPrefixOf r
  rw [without, hlookup]
  by_cases h : p <+: q
  · rw [if_pos h, if_neg (by simp [ List.isPrefixOf_iff_prefix.mpr h])]
  · rw [if_neg h, if_pos]
    rw [Bool.not_eq_true', Bool.eq_false_iff]
    exact fun hp => h ( List.isPrefixOf_iff_prefix.mp hp)

theorem Distinct.without (h : t.Distinct) (p : FilePath) : (t.without p).Distinct := h.filter _

/-! ### The way down -/

/-- A name that a file or directory can have. -/
structure IsName (x : String) : Prop where
  ne_slash : x ≠ "/"
  no_zero : '\x00' ∉ x.toList
  fits : x.utf8ByteSize ≤ nameLimit

theorem entry?_of_ne (h : p ≠ []) (hslash : p ≠ ["/"]) : t.entry? p = t.entries.lookup p := by
  rw [ entry?, if_neg (by simp [h, hslash])]

theorem entry?_concat (hx : IsName x) : t.entry? (p ++ [x]) = t.entries.lookup (p ++ [x]) := by
  refine entry?_of_ne (by simp) fun h => ?_
  cases p with
  | nil => exact hx.ne_slash (List.cons.inj h).1
  | cons y p => simp at h

theorem descend_append (t : FileTree) (done : FilePath) (e : FileEntry) (p q : FilePath) :
    t.descend done e (p ++ q) = (t.descend done e p).bind fun d => t.descend (done ++ p) d q := by
  induction p generalizing done e with
  | nil => simp [descend, Except.bind]
  | cons part p ih =>
    simp only [List.cons_append, descend]
    split
    · rfl
    split
    · rfl
    cases t.entry? (done ++ [part]) with
    | none => rfl
    | some next => simp only [ih, List.append_assoc, List.singleton_append]

/-- Where there is something, no part of the path has a zero byte. -/
theorem no_zero_of_locate (h : t.locate p = .ok e) :
    p.any (·.toList.contains '\x00') = false := by
  rw [Bool.eq_false_iff]
  intro hzero
  rw [locate, if_pos hzero] at h
  cases h

theorem descend_of_locate (h : t.locate p = .ok e) :
    t.descend [] (.directory directoryMode false) p = .ok e := by
  rw [locate, if_neg (by rw [no_zero_of_locate h]; decide)] at h
  exact h

/-- What is in a directory. -/
theorem locate_concat (h : t.locate p = .ok e) (hdir : e.isDirectory = true) (hx : IsName x) :
    t.locate (p ++ [x]) =
      match t.entries.lookup (p ++ [x]) with
      | some d => .ok d
      | none => .error .missing := by
  have hzero : (p ++ [x]).any (·.toList.contains '\x00') = false := by
    rw [List.any_append, no_zero_of_locate h]
    simpa using hx.no_zero
  rw [locate, if_neg (by rw [hzero]; decide), descend_append, descend_of_locate h]
  cases hlook : t.entries.lookup (p ++ [x]) <;>
    simp only [Except.bind, List.nil_append, descend, hdir, Bool.not_true, Bool.false_eq_true,
      if_false, if_neg (Nat.not_lt.mpr hx.fits), entry?_concat hx, hlook]

/-- On the way down there are directories. -/
theorem exists_locate_of_append (h : t.locate (p ++ q) = .ok e) :
    ∃ d, t.locate p = .ok d ∧ (q ≠ [] → d.isDirectory = true) := by
  have hzero := no_zero_of_locate h
  rw [List.any_append, Bool.or_eq_false_iff] at hzero
  have hdescend := descend_of_locate h
  rw [descend_append] at hdescend
  cases hd : t.descend [] (.directory directoryMode false) p with
  | error fault => rw [hd] at hdescend; cases hdescend
  | ok d =>
    refine ⟨d, by rw [locate, if_neg (by rw [hzero.1]; decide), hd], fun hne => ?_⟩
    obtain ⟨part, q, rfl⟩ := List.exists_cons_of_ne_nil hne
    rw [hd] at hdescend
    cases d with
    | directory mode isSealed => rfl
    | file content mode => simp [Except.bind, descend, FileEntry.isDirectory] at hdescend

theorem descend_congr {done : FilePath}
    (h : ∀ q, q <+: p → q ≠ [] → t.entry? (done ++ q) = t'.entry? (done ++ q)) :
    t.descend done e p = t'.descend done e p := by
  induction p generalizing done e with
  | nil => rfl
  | cons part p ih =>
    have hpart := h [part] ⟨p, rfl⟩ (by simp)
    have hrest : ∀ d, t.descend (done ++ [part]) d p = t'.descend (done ++ [part]) d p := by
      refine fun d => ih fun q hq _ => ?_
      rw [List.append_assoc]
      exact h ([part] ++ q) (by simpa using hq) (by simp)
    simp only [descend, hpart, hrest]

/-- What is at a path depends on the entries on the way down to it. -/
theorem locate_congr (h : ∀ q, q <+: p → t.entries.lookup q = t'.entries.lookup q) :
    t.locate p = t'.locate p := by
  have hentry : ∀ q, q <+: p → q ≠ [] → t.entry? ([] ++ q) = t'.entry? ([] ++ q) := by
    intro q hq _
    simp only [List.nil_append, entry?, h q hq]
  rw [locate, locate, descend_congr hentry]

/-- A change away from the way down to a path. -/
theorem Sets.locate {v : Option FileEntry} (h : t.Sets q v t') (hp : ¬ q <+: p) :
    t'.locate p = t.locate p :=
  locate_congr fun r hr => h.frame r (by rintro rfl; exact hp hr)

theorem not_below_itself (p : FilePath) (x : String) : ¬ p ++ [x] <+: p := fun h => by
  have := h.length_le
  rw [List.length_append, List.length_singleton] at this
  omega

/-! ### Actions -/

/-- A directory in which things can be made. -/
def IsOpen (t : FileTree) (p : FilePath) : Prop := ∃ mode, t.locate p = .ok (.directory mode false)

theorem IsOpen.locate_concat (h : t.IsOpen p) (hx : IsName x) :
    t.locate (p ++ [x]) =
      match t.entries.lookup (p ++ [x]) with
      | some d => .ok d
      | none => .error .missing := by
  obtain ⟨mode, hp⟩ := h
  exact FileTree.locate_concat hp rfl hx

theorem IsOpen.congr (h : t.IsOpen p) (hlocate : t'.locate p = t.locate p) : t'.IsOpen p := by
  obtain ⟨mode, hp⟩ := h
  exact ⟨mode, by rw [hlocate, hp]⟩

theorem insertNew_sets (h : t.IsOpen p) (hnone : t.entries.lookup (p ++ [x]) = none)
    (e : FileEntry) : ∃ t', t.insertNew (p ++ [x]) e = .ok t' ∧ t.Sets (p ++ [x]) (some e) t' := by
  obtain ⟨mode, hp⟩ := h
  refine ⟨⟨(p ++ [x], e) :: t.entries⟩, ?_, sets_cons hnone e⟩
  rw [insertNew, List.dropLast_concat, hp]

/-- The directories on the way down to a place are there, so that only the last has to be made. -/
theorem makeBelow_of_locate (done rest : FilePath)
    (h : ∀ q, q <+: rest → ∃ d, t.locate (done ++ q) = .ok d ∧ d.isDirectory = true) :
    t.makeBelow done (rest ++ [x]) = t.makeDirectory (done ++ rest ++ [x]) := by
  induction rest generalizing done with
  | nil =>
    simp only [List.nil_append, makeBelow, List.append_nil]
    cases t.makeDirectory (done ++ [x]) <;> rfl
  | cons part rest ih =>
    obtain ⟨d, hd, hdir⟩ := h [part] ⟨rest, rfl⟩
    have hmake : t.makeDirectory (done ++ [part]) = .ok t := by
      cases d with
      | file content mode => cases hdir
      | directory mode isSealed => rw [makeDirectory, hd]
    have hrest := ih (done ++ [part]) fun q hq => by
      rw [List.append_assoc]
      exact h ([part] ++ q) (by simpa using hq)
    rw [List.cons_append, makeBelow, hmake]
    simpa [bind, Except.bind] using hrest

/-- Making a directory in one that is there. -/
theorem makeDirectories_sets (h : t.IsOpen p) (hx : IsName x)
    (hfree : ∀ e, t.entries.lookup (p ++ [x]) = some e → ∃ mode, e = .directory mode false) :
    ∃ t' mode, t.makeDirectories (p ++ [x]) = .ok t' ∧
      t.Sets (p ++ [x]) (some (.directory mode false)) t' := by
  have hlocate := h.locate_concat hx
  cases hentry : t.entries.lookup (p ++ [x]) with
  | some e =>
    obtain ⟨mode, rfl⟩ := hfree e hentry
    rw [hentry] at hlocate
    exact ⟨t, mode, by rw [makeDirectories, hlocate], hentry ▸ Sets.refl t (p ++ [x])⟩
  | none =>
    rw [hentry] at hlocate
    obtain ⟨t', hinsert, hsets⟩ := insertNew_sets h hentry (.directory directoryMode false)
    refine ⟨t', directoryMode, ?_, hsets⟩
    obtain ⟨mode, hp⟩ := h
    have hbelow : t.makeBelow [] (p ++ [x]) = t.makeDirectory (p ++ [x]) := by
      refine makeBelow_of_locate [] p fun q hq => ?_
      obtain ⟨r, rfl⟩ := hq
      obtain ⟨d, hd, hdir⟩ := exists_locate_of_append hp
      refine ⟨d, hd, ?_⟩
      by_cases hr : r = []
      · subst hr
        rw [List.append_nil, hd] at hp
        cases hp
        rfl
      · exact hdir hr
    rw [makeDirectories, hlocate]
    simp only [hbelow, makeDirectory, hlocate, hinsert]

/-- Writing a file in a directory that is there. -/
theorem write_sets (h : t.IsOpen p) (hx : IsName x)
    (hfile : ∀ e, t.entries.lookup (p ++ [x]) = some e → e.isDirectory = false)
    (content : List UInt8) : ∃ t' mode, t.write (p ++ [x]) content = .ok t' ∧
      t.Sets (p ++ [x]) (some (.file content mode)) t' := by
  have hlocate := h.locate_concat hx
  cases hentry : t.entries.lookup (p ++ [x]) with
  | some e =>
    rw [hentry] at hlocate
    cases e with
    | directory mode isSealed => cases hfile _ hentry
    | file old mode =>
      have hsets := sets_change t (p ++ [x]) fun e => .file content e.mode
      rw [hentry] at hsets
      exact ⟨_, mode, by rw [write, hlocate], hsets⟩
  | none =>
    rw [hentry] at hlocate
    obtain ⟨t', hinsert, hsets⟩ := insertNew_sets h hentry (.file content fileMode)
    exact ⟨t', fileMode, by rw [write, hlocate]; exact hinsert, hsets⟩

/-- Saying who may use what is in a directory. -/
theorem restrict_sets (h : t.IsOpen p) (hx : IsName x)
    (hentry : t.entries.lookup (p ++ [x]) = some e) (mode : Nat) :
    ∃ t', t.restrict (p ++ [x]) mode = .ok t' ∧ t.Sets (p ++ [x]) (some (e.withMode mode)) t' := by
  have hlocate := h.locate_concat hx
  have hsets := sets_change t (p ++ [x]) (·.withMode mode)
  rw [hentry] at hlocate hsets
  exact ⟨_, by rw [restrict, hlocate], hsets⟩

/-- Removing a file from a directory. -/
theorem removeFile_sets (h : t.IsOpen p) (hx : IsName x)
    (hentry : t.entries.lookup (p ++ [x]) = some e) (hfile : e.isDirectory = false) :
    ∃ t', t.removeFile (p ++ [x]) = .ok t' ∧ t.Sets (p ++ [x]) none t' := by
  have hlocate := h.locate_concat hx
  rw [hentry] at hlocate
  cases e with
  | directory mode isSealed => cases hfile
  | file content mode => exact ⟨_, by rw [removeFile, hlocate], sets_filter t (p ++ [x])⟩

/-! ### Actions that succeeded -/

/-- Whoever puts a new entry in had found none. -/
theorem lookup_of_missing (hp : t.locate p.dropLast = .ok e) (hdir : e.isDirectory = true)
    (h : t.locate p = .error .missing) : t.entries.lookup p = none := by
  rcases List.eq_nil_or_concat p with rfl | ⟨q, x, rfl⟩
  · cases h
  rw [List.concat_eq_append, List.dropLast_concat] at hp
  rw [List.concat_eq_append] at h ⊢
  have hzero : (q ++ [x]).any (·.toList.contains '\x00') = false := by
    rw [Bool.eq_false_iff]
    intro hzero
    rw [locate, if_pos hzero] at h
    cases h
  rw [locate, if_neg (by rw [hzero]; decide), descend_append, descend_of_locate hp] at h
  simp only [Except.bind, List.nil_append, descend, hdir, Bool.not_true, Bool.false_eq_true,
    if_false] at h
  split at h
  · cases h
  · cases hentry : t.entry? (q ++ [x]) with
    | some d => rw [hentry] at h; cases h
    | none =>
      rw [ entry?] at hentry
      split at hentry
      · cases hentry
      · exact hentry

/-- What is at a path has an entry with it, unless it is the top. -/
theorem lookup_of_locate (h : t.locate p = .ok e) (hfile : e.isDirectory = false) :
    t.entries.lookup p = some e := by
  rcases List.eq_nil_or_concat p with rfl | ⟨q, x, rfl⟩
  · cases h
    cases hfile
  rw [List.concat_eq_append] at h ⊢
  have hdescend := descend_of_locate h
  rw [descend_append] at hdescend
  obtain ⟨d, hd, hdir⟩ := exists_locate_of_append h
  rw [descend_of_locate hd] at hdescend
  simp only [Except.bind, List.nil_append, descend, hdir (by simp), Bool.not_true,
    Bool.false_eq_true, if_false] at hdescend
  split at hdescend
  · cases hdescend
  · cases hentry : t.entry? (q ++ [x]) with
    | none => rw [hentry] at hdescend; cases hdescend
    | some f =>
      rw [hentry] at hdescend
      cases hdescend
      rw [ entry?] at hentry
      split at hentry
      · cases hentry
        cases hfile
      · exact hentry

theorem sets_of_write {content : List UInt8} (h : t.write p content = .ok t') :
    ∃ mode, t.Sets p (some (.file content mode)) t' := by
  rw [write] at h
  split at h
  · next old mode hp =>
    cases h
    have hsets := sets_change t p fun e => .file content e.mode
    rw [lookup_of_locate hp rfl] at hsets
    exact ⟨mode, hsets⟩
  · cases h
  · next hp =>
    rw [insertNew] at h
    split at h
    · next mode hdir =>
      cases h
      exact ⟨fileMode, sets_cons (lookup_of_missing hdir rfl hp) _⟩
    all_goals cases h
  · cases h

theorem sets_of_restrict {mode : Nat} (h : t.restrict p mode = .ok t') :
    t.Sets p ((t.entries.lookup p).map (·.withMode mode)) t' := by
  rw [restrict] at h
  split at h
  · cases h
    exact sets_change t p _
  · cases h

theorem sets_of_removeFile (h : t.removeFile p = .ok t') : t.Sets p none t' := by
  rw [removeFile] at h
  split at h
  · cases h
    exact sets_filter t p
  all_goals cases h

theorem sets_of_makeDirectory (h : t.makeDirectory p = .ok t') :
    t' = t ∨ t.Sets p (some (.directory directoryMode false)) t' := by
  rw [makeDirectory] at h
  split at h
  · cases h
    exact .inl rfl
  · cases h
  · next hp =>
    rw [insertNew] at h
    split at h
    · next mode hdir =>
      cases h
      exact .inr (sets_cons (lookup_of_missing hdir rfl hp) _)
    all_goals cases h
  · cases h

theorem makeBelow_concat (t : FileTree) (done rest : FilePath) (x : String) :
    t.makeBelow done (rest ++ [x]) =
      (t.makeBelow done rest).bind fun t => t.makeDirectory (done ++ rest ++ [x]) := by
  induction rest generalizing t done with
  | nil =>
    simp only [List.nil_append, makeBelow, List.append_nil, Except.bind, bind]
    cases t.makeDirectory (done ++ [x]) <;> rfl
  | cons part rest ih =>
    simp only [List.cons_append, makeBelow, bind, Except.bind]
    cases t.makeDirectory (done ++ [part]) with
    | error fault => rfl
    | ok t₁ => simp only [ih, Except.bind, List.append_assoc, List.singleton_append]

/-- Directories that are made on the way down to a place stand on that way. -/
theorem frame_makeBelow {done rest : FilePath} (h : t.makeBelow done rest = .ok t') :
    (∀ q, ¬ q <+: done ++ rest → t'.entries.lookup q = t.entries.lookup q) ∧
      (t.Distinct → t'.Distinct) := by
  induction rest generalizing t done with
  | nil => cases h; exact ⟨fun _ _ => rfl, id⟩
  | cons part rest ih =>
    rw [makeBelow] at h
    cases hmake : t.makeDirectory (done ++ [part]) with
    | error fault => rw [hmake] at h; cases h
    | ok t₁ =>
      rw [hmake] at h
      obtain ⟨hframe, hdistinct⟩ := ih h
      have hway : done ++ [part] ++ rest = done ++ part :: rest := by simp
      rcases sets_of_makeDirectory hmake with rfl | hsets
      · exact ⟨fun q hq => hframe q (hway ▸ hq), hdistinct⟩
      · refine ⟨fun q hq => ?_, fun hd => hdistinct (hsets.distinct hd)⟩
        rw [hframe q (hway ▸ hq), hsets.frame q]
        rintro rfl
        exact hq ⟨rest, hway⟩

/-- A directory that is made anew, and the one above it. -/
theorem isOpen_of_makeDirectories (hx : IsName x) (hnone : t.entries.lookup (p ++ [x]) = none)
    (h : t.makeDirectories (p ++ [x]) = .ok t') :
    t'.IsOpen p ∧ t'.IsOpen (p ++ [x]) ∧
      (∀ q, ¬ q <+: p ++ [x] → t'.entries.lookup q = t.entries.lookup q) ∧
        (t.Distinct → t'.Distinct) := by
  rw [makeDirectories] at h
  split at h
  · next mode isSealed hp =>
    exfalso
    obtain ⟨d, hd, hdir⟩ := exists_locate_of_append hp
    rw [locate_concat hd (hdir (by simp)) hx, hnone] at hp
    cases hp
  · cases h
  · obtain ⟨hframe, hdistinct⟩ := frame_makeBelow h
    rw [makeBelow_concat] at h
    cases hbelow : t.makeBelow [] p with
    | error fault => rw [hbelow] at h; cases h
    | ok t₁ =>
      rw [hbelow] at h
      simp only [Except.bind, List.nil_append] at h
      have hnone₁ : t₁.entries.lookup (p ++ [x]) = none := by
        rw [(frame_makeBelow hbelow).1 _ (not_below_itself p x), hnone]
      rw [makeDirectory] at h
      split at h
      · next mode isSealed hp =>
        exfalso
        obtain ⟨d, hd, hdir⟩ := exists_locate_of_append hp
        rw [locate_concat hd (hdir (by simp)) hx, hnone₁] at hp
        cases hp
      · cases h
      · rw [insertNew, List.dropLast_concat] at h
        split at h
        · next mode hdir =>
          cases h
          have hsets := sets_cons hnone₁ (.directory directoryMode false)
          have hopen : FileTree.IsOpen ⟨(p ++ [x], .directory directoryMode false) :: t₁.entries⟩ p :=
            ⟨mode, by rw [hsets.locate (not_below_itself p x), hdir]⟩
          exact ⟨hopen, ⟨directoryMode, by rw [hopen.locate_concat hx, hsets.self]⟩, hframe,
            hdistinct⟩
        all_goals cases h
      · cases h
  · cases h

/-- Entries that differ at most in who may use them. -/
def SameKind (e e' : FileEntry) : Prop := e.withMode 0 = e'.withMode 0

theorem SameKind.isDirectory {e e' : FileEntry} (h : SameKind e e') :
    e'.isDirectory = e.isDirectory := by
  cases e <;> cases e' <;> cases h <;> rfl

theorem entry?_change (t : FileTree) (p q : FilePath) (mode : Nat) :
    ( t.entry? q = none ∧ FileTree.entry? (t.change p (·.withMode mode)) q = none) ∨
      ∃ e e', t.entry? q = some e ∧ FileTree.entry? (t.change p (·.withMode mode)) q = some e' ∧
        SameKind e e' := by
  have hsets := sets_change t p (·.withMode mode)
  by_cases htop : q = [] ∨ q = ["/"]
  · refine .inr ⟨_, _, by rw [ entry?, if_pos htop], by rw [ entry?, if_pos htop], rfl⟩
  rw [ entry?, if_neg htop, entry?, if_neg htop]
  by_cases hq : q = p
  · subst hq
    rw [hsets.self]
    cases t.entries.lookup q with
    | none => exact .inl ⟨rfl, rfl⟩
    | some e => exact .inr ⟨e, _, rfl, rfl, by cases e <;> rfl⟩
  · rw [hsets.frame q hq]
    cases t.entries.lookup q with
    | none => exact .inl ⟨rfl, rfl⟩
    | some e => exact .inr ⟨e, e, rfl, rfl, rfl⟩

/-- Saying who may use something changes nothing on the way to anything. -/
theorem descend_change {done : FilePath} {e' d : FileEntry} (p : FilePath) (mode : Nat)
    (hkind : SameKind e e') (h : t.descend done e q = .ok d) :
    ∃ d', (t.change p (·.withMode mode)).descend done e' q = .ok d' ∧ SameKind d d' := by
  induction q generalizing done e e' with
  | nil => cases h; exact ⟨e', rfl, hkind⟩
  | cons part q ih =>
    rw [descend] at h ⊢
    rw [hkind.isDirectory]
    split at h
    · cases h
    next hdir =>
    rw [if_neg hdir]
    split at h
    · cases h
    next hfits =>
    rw [if_neg hfits]
    rcases entry?_change t p (done ++ [part]) mode with ⟨hnone, -⟩ | ⟨f, f', hf, hf', hsame⟩
    · rw [hnone] at h
      cases h
    · rw [hf] at h
      rw [hf']
      exact ih hsame h

theorem IsOpen.restrict (h : t.IsOpen q) {mode : Nat} (hrun : t.restrict p mode = .ok t') :
    t'.IsOpen q := by
  obtain ⟨mode', hq⟩ := h
  rw [FileTree.restrict] at hrun
  split at hrun
  · cases hrun
    obtain ⟨d, hd, hkind⟩ := descend_change p mode rfl (descend_of_locate hq)
    cases d with
    | file content mode => cases hkind
    | directory mode isSealed =>
      cases hkind
      exact ⟨mode, by rw [locate, if_neg (by rw [no_zero_of_locate hq]; decide), hd]⟩
  · cases hrun

/-! ### What is in a directory -/

/-- What is listed with a name stands at the path with that name. -/
theorem eq_concat_of_listed {d : FileEntry} (h : (match q.getLast? with
    | some name => if q.dropLast = p then some (name, d) else none
    | none => none) = some (x, e)) : q = p ++ [x] ∧ d = e := by
  cases hlast : q.getLast? with
  | none => rw [hlast] at h; cases h
  | some name =>
    rw [hlast] at h
    simp only at h
    split at h
    · next hdrop =>
      cases h
      obtain ⟨r, rfl⟩ := List.getLast?_eq_some_iff.mp hlast
      exact ⟨by rw [List.dropLast_concat] at hdrop; rw [hdrop], rfl⟩
    · cases h

/-- What is listed of a directory. -/
theorem Distinct.mem_below (h : t.Distinct) (x : String) (e : FileEntry) :
    (x, e) ∈ t.below p ↔ t.entries.lookup (p ++ [x]) = some e := by
  simp only [below, List.mem_filterMap, Prod.exists]
  constructor
  · rintro ⟨q, d, hmem, hq⟩
    obtain ⟨rfl, rfl⟩ := eq_concat_of_listed hq
    exact h.lookup hmem
  · intro hlookup
    exact ⟨p ++ [x], e, mem_of_lookup hlookup, by simp⟩

/-- Nothing is listed twice. -/
theorem Distinct.nodup_below (h : t.Distinct) (p : FilePath) :
    ((t.below p).map Prod.fst).Nodup := by
  have hpaths := List.pairwise_map.mp h
  refine List.pairwise_map.mpr (List.pairwise_filterMap.mpr (hpaths.imp ?_))
  rintro ⟨q, d⟩ ⟨r, f⟩ hne ⟨x, e⟩ hx ⟨y, g⟩ hy hxy
  obtain ⟨rfl, -⟩ := eq_concat_of_listed hx
  obtain ⟨rfl, -⟩ := eq_concat_of_listed hy
  exact hne (by rw [show x = y from hxy])

end FileTree

end CertSteward
