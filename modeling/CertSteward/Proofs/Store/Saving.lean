import CertSteward.Proofs.Bytes.Utf8
import CertSteward.Proofs.Record.Stored
import CertSteward.Proofs.Store.FileTree
import CertSteward.Store.Files

/-!
# Saving a record in files

What is read back from the directory of a record depends on two of its files: the record without
its key in `record.json`, and the key in `key.pem`. Saving writes the first at the start and the
second at the end. A save that meets no obstacle changes nothing but the directory of the record,
and what is read back from it is the record with its key.

## Main definitions

* `FileTree.Keeps` — a directory with a record and a key in it
* `FileTree.Bare` — the place of a directory that is not there yet
* `FileStep.Concerns` — the actions on one file

## Main results

* `FileTree.Keeps.recordIn` — what is kept in a directory is read back
* `FileStep.lookup_runAll` — actions on files leave what is at any other path
* `FileTree.saveSteps_run` — a save that meets no obstacle leaves the record with its key
-/

namespace CertSteward

namespace FileTree

variable {t t' : FileTree} {d p q : FilePath} {x : String} {r old : CertificateRecord}
  {key : PrivateKey}

/-- That an entry is a file with that text, or missing if the text is empty. -/
def Kept (entry : Option FileEntry) (text : String) : Prop :=
  if text.isEmpty then entry = none else ∃ mode, entry = some (.file (Utf8.encode text) mode)

/-- A directory that is there. -/
def IsDirectory (t : FileTree) (d : FilePath) : Prop :=
  ∃ e, t.locate d = .ok e ∧ e.isDirectory = true

theorem IsOpen.isDirectory (h : t.IsOpen d) : t.IsDirectory d := by
  obtain ⟨mode, hd⟩ := h
  exact ⟨_, hd, rfl⟩

theorem IsDirectory.congr (h : t.IsDirectory d) (hlocate : t'.locate d = t.locate d) :
    t'.IsDirectory d := by
  obtain ⟨e, hd, hdir⟩ := h
  exact ⟨e, by rw [hlocate, hd], hdir⟩

/-- What is read of a file in a directory: its text if its bytes are one. -/
theorem IsDirectory.readText?_bytes (h : t.IsDirectory d) (hx : IsName x) {bytes : List UInt8}
    {mode : Nat} (hentry : t.entries.lookup (d ++ [x]) = some (.file bytes mode)) :
    t.readText? (d ++ [x]) = (Utf8.decode? bytes).elim (.error .notText) (.ok ∘ some) := by
  obtain ⟨e, hd, hdir⟩ := h
  rw [readText?, readText, read, locate_concat hd hdir hx, hentry]
  simp only [bind, Except.bind]
  cases Utf8.decode? bytes <;> rfl

/-- The text of a file in a directory. -/
theorem IsDirectory.readText?_file (h : t.IsDirectory d) (hx : IsName x) {text : String}
    {mode : Nat} (hentry : t.entries.lookup (d ++ [x]) = some (.file (Utf8.encode text) mode)) :
    t.readText? (d ++ [x]) = .ok (some text) := by
  rw [h.readText?_bytes hx hentry, Utf8.decode?_encode]
  rfl

/-- No text of a file that is missing. -/
theorem IsDirectory.readText?_missing (h : t.IsDirectory d) (hx : IsName x)
    (hentry : t.entries.lookup (d ++ [x]) = none) : t.readText? (d ++ [x]) = .ok none := by
  obtain ⟨e, hd, hdir⟩ := h
  rw [readText?, readText, read, locate_concat hd hdir hx, hentry]
  rfl

theorem IsDirectory.readText?_kept (h : t.IsDirectory d) (hx : IsName x) {text : String}
    (hkept : Kept (t.entries.lookup (d ++ [x])) text) :
    t.readText? (d ++ [x]) = .ok (if text.isEmpty then none else some text) := by
  unfold Kept at hkept
  split at hkept
  · next hempty => rw [h.readText?_missing hx hkept, if_pos hempty]
  · next hfull =>
    obtain ⟨mode, hentry⟩ := hkept
    rw [h.readText?_file hx hentry, if_neg hfull]

/-! ### The files of a record -/

theorem isName_record : IsName "record.json" := ⟨by decide, by decide, by decide⟩
theorem isName_certificate : IsName "cert.pem" := ⟨by decide, by decide, by decide⟩
theorem isName_chain : IsName "chain.pem" := ⟨by decide, by decide, by decide⟩
theorem isName_key : IsName "key.pem" := ⟨by decide, by decide, by decide⟩

/-- A directory with the files of a record in it as far as reading goes: the record, and a key. -/
structure Keeps (t : FileTree) (d : FilePath) (r : CertificateRecord) (key : PrivateKey) :
    Prop where
  directory : t.IsDirectory d
  record : ∃ mode, t.entries.lookup (d ++ ["record.json"]) =
    some (.file (Utf8.encode r.toJson.pretty) mode)
  key : Kept (t.entries.lookup (d ++ ["key.pem"])) key.text

theorem mapError_ok {α : Type} (a : α) : Except.mapError StoreError.file (.ok a) = .ok a := rfl

/-- What is kept in a directory is read back. -/
theorem Keeps.recordIn (h : t.Keeps d r key) (hr : r.HasReadings) :
    FileStore.recordIn t d = .ok (some (r.attachKey key)) := by
  obtain ⟨hdir, ⟨mode, hrecord⟩, hkey⟩ := h
  rw [FileStore.recordIn, hdir.readText?_file isName_record hrecord]
  simp only [mapError_ok, bind, Except.bind, hr.ofText?_pretty,
    hdir.readText?_kept isName_key hkey]
  by_cases hempty : key.text.isEmpty
  · have hnone : key = .none := by
      cases key
      simpa [PrivateKey.none] using hempty
    rw [if_pos hempty, hnone]
    rfl
  · rw [if_neg hempty]
    rfl

/-- Nothing is read where there is no record. -/
theorem IsDirectory.recordIn_none (h : t.IsDirectory d)
    (hrecord : t.entries.lookup (d ++ ["record.json"]) = none) :
    FileStore.recordIn t d = .ok none := by
  rw [FileStore.recordIn, h.readText?_missing isName_record hrecord]
  rfl

/-- A place in a directory where nothing is yet. -/
structure Bare (t : FileTree) (parent : FilePath) (x : String) : Prop where
  isOpen : t.IsOpen parent
  isName : IsName x
  missing : t.entries.lookup (parent ++ [x]) = none
  below : ∀ y, t.entries.lookup (parent ++ [x] ++ [y]) = none

/-- Where there is no directory, there is no record. -/
theorem Bare.recordIn {parent : FilePath} (h : t.Bare parent x) :
    FileStore.recordIn t (parent ++ [x]) = .ok none := by
  obtain ⟨mode, hp⟩ := h.isOpen
  have hlocate : t.locate (parent ++ [x] ++ ["record.json"]) = .error .missing := by
    have hzero : (parent ++ [x] ++ ["record.json"]).any (·.toList.contains '\x00') = false := by
      rw [List.any_append, List.any_append, no_zero_of_locate hp]
      simpa using h.isName.no_zero
    have hd : t.descend [] (.directory directoryMode false) (parent ++ [x]) = .error .missing := by
      rw [descend_append, descend_of_locate hp]
      simp only [Except.bind, List.nil_append, descend, FileEntry.isDirectory, Bool.not_true,
        Bool.false_eq_true, if_false, if_neg (Nat.not_lt.mpr h.isName.fits),
        entry?_concat h.isName, h.missing]
    rw [locate, if_neg (by rw [hzero]; decide), descend_append, hd]
    rfl
  rw [FileStore.recordIn, readText?, readText, read, hlocate]
  rfl

end FileTree

/-! ### Actions on one file -/

namespace FileStep

open FileTree

variable {t t' : FileTree} {p q : FilePath} {step : FileStep} {steps : List FileStep}

/-- That an action is about the one file at a path. -/
def Concerns : FileStep → FilePath → Prop
  | makeDirectories _, _ => False
  | write p _, q | restrict p _, q | clear p, q => p = q

theorem Concerns.sets (h : step.Concerns p) (hrun : step.run t = .ok t') :
    ∃ v, t.Sets p v t' := by
  cases step with
  | makeDirectories q => cases h
  | write q content =>
    cases h
    obtain ⟨mode, hsets⟩ := sets_of_write hrun
    exact ⟨_, hsets⟩
  | restrict q mode =>
    cases h
    exact ⟨_, sets_of_restrict hrun⟩
  | clear q =>
    cases h
    rw [run] at hrun
    split at hrun
    · exact ⟨_, sets_of_removeFile hrun⟩
    · cases hrun
      exact ⟨_, Sets.refl t p⟩

theorem runAll_cons : runAll t (step :: steps) = (.ok (), t') ↔
    ∃ t₁, step.run t = .ok t₁ ∧ runAll t₁ steps = (.ok (), t') := by
  rw [runAll]
  cases step.run t with
  | error fault => simp
  | ok t₁ => simp

theorem runAll_append {more : List FileStep} : runAll t (steps ++ more) = (.ok (), t') ↔
    ∃ t₁, runAll t steps = (.ok (), t₁) ∧ runAll t₁ more = (.ok (), t') := by
  induction steps generalizing t with
  | nil => simp [runAll]
  | cons step steps ih =>
    simp only [List.cons_append, runAll_cons, ih]
    constructor
    · rintro ⟨t₁, hstep, t₂, hsteps, hmore⟩
      exact ⟨t₂, ⟨t₁, hstep, hsteps⟩, hmore⟩
    · rintro ⟨t₂, ⟨t₁, hstep, hsteps⟩, hmore⟩
      exact ⟨t₁, hstep, t₂, hsteps, hmore⟩

/-- Actions on files leave what is at any other path. -/
theorem lookup_runAll (hsteps : ∀ step ∈ steps, ∃ p ≠ q, step.Concerns p)
    (hrun : runAll t steps = (.ok (), t')) : t'.entries.lookup q = t.entries.lookup q := by
  induction steps generalizing t with
  | nil => cases hrun; rfl
  | cons step steps ih =>
    obtain ⟨t₁, hstep, hrest⟩ := runAll_cons.mp hrun
    obtain ⟨p, hne, hconcerns⟩ := hsteps step List.mem_cons_self
    obtain ⟨v, hsets⟩ := hconcerns.sets hstep
    rw [ih (fun s hs => hsteps s (List.mem_cons_of_mem _ hs)) hrest, hsets.frame q (Ne.symm hne)]

theorem concerns_keepText (p : FilePath) (content : String) :
    ∀ step ∈ FileStore.keepText p content, step.Concerns p := by
  unfold FileStore.keepText
  split
  · simp [Concerns]
  · simp [Concerns]

theorem concerns_keepSecret (p : FilePath) (content : String) :
    ∀ step ∈ FileStore.keepSecret p content, step.Concerns p := by
  unfold FileStore.keepSecret
  split
  · simp [Concerns]
  · simp [Concerns]

end FileStep

namespace FileTree

open FileStep

variable {t t' : FileTree} {d p q : FilePath} {x : String} {r old : CertificateRecord}
  {key : PrivateKey} {done : List FileStep}

/-- The actions of a save on the texts that are not read back. -/
def textSteps (d : FilePath) (r : CertificateRecord) : List FileStep :=
  FileStore.keepText (d ++ ["cert.pem"]) r.certificate ++
    FileStore.keepText (d ++ ["chain.pem"]) r.chain

theorem saveSteps_eq (d : FilePath) (r : CertificateRecord) :
    FileStore.saveSteps d r = .makeDirectories d ::
      .write (d ++ ["record.json"]) r.toJson.pretty ::
        (textSteps d r ++ FileStore.keepSecret (d ++ ["key.pem"]) r.key.text) := by
  simp [FileStore.saveSteps, textSteps]

theorem concerns_textSteps (d : FilePath) (r : CertificateRecord) :
    ∀ step ∈ textSteps d r, ∃ x, (x = "cert.pem" ∨ x = "chain.pem") ∧ step.Concerns (d ++ [x]) := by
  intro step hstep
  rcases List.mem_append.mp hstep with h | h
  · exact ⟨_, .inl rfl, concerns_keepText _ _ step h⟩
  · exact ⟨_, .inr rfl, concerns_keepText _ _ step h⟩

/-- Actions on files in a directory leave the directory there. -/
theorem IsDirectory.runAll (h : t.IsDirectory d) {steps : List FileStep}
    (hsteps : ∀ step ∈ steps, ∃ x, step.Concerns (d ++ [x]))
    (hrun : FileStep.runAll t steps = (.ok (), t')) : t'.IsDirectory d := by
  refine h.congr (locate_congr fun q hq => lookup_runAll (fun step hstep => ?_) hrun)
  obtain ⟨x, hconcerns⟩ := hsteps step hstep
  exact ⟨d ++ [x], fun heq => not_below_itself d x (heq ▸ hq), hconcerns⟩

theorem kept_file {entry : Option FileEntry} {text : String} (hfull : ¬ text.isEmpty)
    (h : ∃ mode, entry = some (.file (Utf8.encode text) mode)) : Kept entry text := by
  rw [Kept, if_neg hfull]
  exact h

theorem IsDirectory.lookup_clear (h : t.IsDirectory d) (hx : IsName x)
    (hrun : (FileStep.clear (d ++ [x])).run t = .ok t') :
    t'.entries.lookup (d ++ [x]) = none := by
  obtain ⟨e, hd, hdir⟩ := h
  rw [FileStep.run] at hrun
  split at hrun
  · exact (sets_of_removeFile hrun).self
  · next hmissing =>
    cases hrun
    rw [holds, locate_concat hd hdir hx] at hmissing
    cases hentry : t.entries.lookup (d ++ [x]) with
    | none => rfl
    | some e => simp [hentry] at hmissing

/-- A key is kept from the first action on that is about it. -/
theorem IsDirectory.kept_keepSecret (h : t.IsDirectory d) (hx : IsName x) {content : String}
    {rest : List FileStep} (hsteps : FileStore.keepSecret (d ++ [x]) content = done ++ rest)
    (hne : done ≠ []) (hrun : FileStep.runAll t done = (.ok (), t')) :
    Kept (t'.entries.lookup (d ++ [x])) content := by
  obtain ⟨step, more, rfl⟩ := List.exists_cons_of_ne_nil hne
  obtain ⟨t₁, hstep, hmore⟩ := runAll_cons.mp hrun
  unfold FileStore.keepSecret at hsteps
  split at hsteps
  · next hempty =>
    simp only [List.cons_append, List.cons.injEq, List.nil_eq, List.append_eq_nil_iff] at hsteps
    obtain ⟨rfl, rfl, -⟩ := hsteps
    cases hmore
    rw [Kept, if_pos hempty]
    exact h.lookup_clear hx hstep
  · next hfull =>
    simp only [List.cons_append, List.cons.injEq] at hsteps
    obtain ⟨rfl, hsteps⟩ := hsteps
    obtain ⟨mode, hsets⟩ := sets_of_write hstep
    refine kept_file hfull ?_
    cases more with
    | nil =>
      cases hmore
      exact ⟨mode, hsets.self⟩
    | cons step more =>
      simp only [List.cons_append, List.cons.injEq, List.nil_eq, List.append_eq_nil_iff] at hsteps
      obtain ⟨rfl, rfl, -⟩ := hsteps
      obtain ⟨t₂, hrestrict, hend⟩ := runAll_cons.mp hmore
      cases hend
      have hmode := (sets_of_restrict hrestrict).self
      rw [hsets.self] at hmode
      exact ⟨_, hmode⟩

/-- After the record has been written only the key can change of what is read back. -/
theorem IsDirectory.afterRecord (h : t.IsDirectory d) {rest : List FileStep}
    (hsteps : textSteps d r ++ FileStore.keepSecret (d ++ ["key.pem"]) r.key.text = done ++ rest)
    (hrun : FileStep.runAll t done = (.ok (), t')) :
    t'.IsDirectory d ∧
      t'.entries.lookup (d ++ ["record.json"]) = t.entries.lookup (d ++ ["record.json"]) ∧
        (t'.entries.lookup (d ++ ["key.pem"]) = t.entries.lookup (d ++ ["key.pem"]) ∨
          Kept (t'.entries.lookup (d ++ ["key.pem"])) r.key.text) := by
  have hall : ∀ step ∈ done, ∃ x, x ≠ "record.json" ∧ step.Concerns (d ++ [x]) := by
    intro step hstep
    have hmem : step ∈ textSteps d r ++ FileStore.keepSecret (d ++ ["key.pem"]) r.key.text := by
      rw [hsteps]
      exact List.mem_append_left _ hstep
    rcases List.mem_append.mp hmem with htext | hsecret
    · obtain ⟨x, rfl | rfl, hconcerns⟩ := concerns_textSteps d r step htext
      · exact ⟨_, by decide, hconcerns⟩
      · exact ⟨_, by decide, hconcerns⟩
    · exact ⟨_, by decide, concerns_keepSecret _ _ step hsecret⟩
  have htexts : ∀ step ∈ textSteps d r, ∃ p ≠ d ++ ["key.pem"], step.Concerns p := by
    intro step hstep
    obtain ⟨x, rfl | rfl, hconcerns⟩ := concerns_textSteps d r step hstep
    · exact ⟨_, by simp, hconcerns⟩
    · exact ⟨_, by simp, hconcerns⟩
  refine ⟨h.runAll (fun s hs => (hall s hs).imp fun _ h => h.2) hrun,
    lookup_runAll (fun s hs => ?_) hrun, ?_⟩
  · obtain ⟨x, hx, hconcerns⟩ := hall s hs
    exact ⟨_, by simpa using hx, hconcerns⟩
  rcases List.append_eq_append_iff.mp hsteps with ⟨more, rfl, hmore⟩ | ⟨more, hstart, -⟩
  · obtain ⟨t₁, hmiddle, hsecret⟩ := runAll_append.mp hrun
    by_cases hnil : more = []
    · subst hnil
      cases hsecret
      exact .inl (lookup_runAll htexts hmiddle)
    · have hdir := h.runAll (fun s hs => (hall s (List.mem_append_left _ hs)).imp fun _ h => h.2)
        hmiddle
      exact .inr (hdir.kept_keepSecret isName_key hmore hnil hsecret)
  · exact .inl (lookup_runAll (fun s hs => htexts s (hstart ▸ List.mem_append_left _ hs)) hrun)

/-! ### Saves that meet no obstacle -/

/-- A directory in which files can be made, with nothing but files in it. -/
structure Ready (t : FileTree) (d : FilePath) : Prop where
  isOpen : t.IsOpen d
  files : ∀ x e, t.entries.lookup (d ++ [x]) = some e → e.isDirectory = false

/-- A change of nothing but files in a directory. -/
structure Within (t : FileTree) (d : FilePath) (t' : FileTree) : Prop where
  ready : t'.Ready d
  frame : ∀ q, (∀ x, q ≠ d ++ [x]) → t'.entries.lookup q = t.entries.lookup q
  distinct : t.Distinct → t'.Distinct

theorem Within.refl (h : t.Ready d) : t.Within d t := ⟨h, fun _ _ => rfl, id⟩

theorem Within.trans {t'' : FileTree} (h : t.Within d t') (h' : t'.Within d t'') :
    t.Within d t'' :=
  ⟨h'.ready, fun q hq => (h'.frame q hq).trans (h.frame q hq), fun hd => h'.distinct (h.distinct hd)⟩

theorem Ready.within {v : Option FileEntry} (h : t.Ready d) (hsets : t.Sets (d ++ [x]) v t')
    (hv : ∀ e ∈ v, e.isDirectory = false) : t.Within d t' where
  ready :=
    { isOpen := h.isOpen.congr (hsets.locate (not_below_itself d x))
      files := fun y e he => by
        by_cases hy : y = x
        · subst hy
          exact hv e (hsets.self ▸ he)
        · rw [hsets.frame (d ++ [y]) (by simpa using hy)] at he
          exact h.files y e he }
  frame q hq := hsets.frame q (hq x)
  distinct := hsets.distinct

theorem Ready.write (h : t.Ready d) (hx : IsName x) (content : String) :
    ∃ t', (FileStep.write (d ++ [x]) content).run t = .ok t' ∧ t.Within d t' := by
  obtain ⟨t', mode, hrun, hsets⟩ := write_sets h.isOpen hx (h.files x) (Utf8.encode content)
  refine ⟨t', hrun, h.within hsets ?_⟩
  rintro e ⟨⟩
  rfl

theorem Ready.clear (h : t.Ready d) (hx : IsName x) :
    ∃ t', (FileStep.clear (d ++ [x])).run t = .ok t' ∧ t.Within d t' := by
  cases hentry : t.entries.lookup (d ++ [x]) with
  | none =>
    refine ⟨t, ?_, .refl h⟩
    rw [FileStep.run, holds, h.isOpen.locate_concat hx, hentry]
    rfl
  | some e =>
    obtain ⟨t', hrun, hsets⟩ := removeFile_sets h.isOpen hx hentry (h.files x e hentry)
    refine ⟨t', ?_, h.within hsets (by simp)⟩
    rw [FileStep.run, holds, h.isOpen.locate_concat hx, hentry]
    exact hrun

theorem Ready.restrict (h : t.Ready d) (hx : IsName x) {content : List UInt8} {mode : Nat}
    (hentry : t.entries.lookup (d ++ [x]) = some (.file content mode)) (mode' : Nat) :
    ∃ t', (FileStep.restrict (d ++ [x]) mode').run t = .ok t' ∧ t.Within d t' := by
  obtain ⟨t', hrun, hsets⟩ := restrict_sets h.isOpen hx hentry mode'
  refine ⟨t', hrun, h.within hsets ?_⟩
  rintro e ⟨⟩
  rfl

theorem Ready.keepText (h : t.Ready d) (hx : IsName x) (content : String) :
    ∃ t', FileStep.runAll t (FileStore.keepText (d ++ [x]) content) = (.ok (), t') ∧
      t.Within d t' := by
  unfold FileStore.keepText
  split
  · obtain ⟨t', hrun, hwithin⟩ := h.clear hx
    exact ⟨t', runAll_cons.mpr ⟨t', hrun, rfl⟩, hwithin⟩
  · obtain ⟨t', hrun, hwithin⟩ := h.write hx content
    exact ⟨t', runAll_cons.mpr ⟨t', hrun, rfl⟩, hwithin⟩

theorem Ready.keepSecret (h : t.Ready d) (hx : IsName x) (content : String) :
    ∃ t', FileStep.runAll t (FileStore.keepSecret (d ++ [x]) content) = (.ok (), t') ∧
      t.Within d t' := by
  unfold FileStore.keepSecret
  split
  · obtain ⟨t', hrun, hwithin⟩ := h.clear hx
    exact ⟨t', runAll_cons.mpr ⟨t', hrun, rfl⟩, hwithin⟩
  · obtain ⟨t₁, hwrite, hwithin⟩ := h.write hx content
    obtain ⟨mode, hsets⟩ := sets_of_write hwrite
    obtain ⟨t', hrestrict, hwithin'⟩ := hwithin.ready.restrict hx hsets.self FileStore.ownFile
    exact ⟨t', runAll_cons.mpr ⟨t₁, hwrite, runAll_cons.mpr ⟨t', hrestrict, rfl⟩⟩,
      hwithin.trans hwithin'⟩

/-- All actions behind the making of the directory succeed. -/
theorem Ready.runAll (h : t.Ready d) (r : CertificateRecord) :
    ∃ t', FileStep.runAll t (.write (d ++ ["record.json"]) r.toJson.pretty ::
        (textSteps d r ++ FileStore.keepSecret (d ++ ["key.pem"]) r.key.text)) = (.ok (), t') ∧
      t.Within d t' := by
  obtain ⟨t₁, hrecord, h₁⟩ := h.write isName_record r.toJson.pretty
  obtain ⟨t₂, hcertificate, h₂⟩ := h₁.ready.keepText isName_certificate r.certificate
  obtain ⟨t₃, hchain, h₃⟩ := h₂.ready.keepText isName_chain r.chain
  obtain ⟨t₄, hkey, h₄⟩ := h₃.ready.keepSecret isName_key r.key.text
  refine ⟨t₄, runAll_cons.mpr ⟨t₁, hrecord, runAll_append.mpr ⟨t₃, ?_, hkey⟩⟩,
    ((h₁.trans h₂).trans h₃).trans h₄⟩
  exact runAll_append.mpr ⟨t₂, hcertificate, hchain⟩

/-- What they leave is the record with its key. -/
theorem IsDirectory.keeps (h : t.IsDirectory d)
    (hrun : FileStep.runAll t (.write (d ++ ["record.json"]) r.toJson.pretty ::
      (textSteps d r ++ FileStore.keepSecret (d ++ ["key.pem"]) r.key.text)) = (.ok (), t')) :
    t'.Keeps d r r.key := by
  obtain ⟨t₁, hfirst, hlater⟩ := runAll_cons.mp hrun
  obtain ⟨mode, hwritten⟩ := sets_of_write hfirst
  have hdir : t₁.IsDirectory d := h.congr (hwritten.locate (not_below_itself d _))
  obtain ⟨hdir', hrecord, -⟩ := hdir.afterRecord (List.append_nil _).symm hlater
  obtain ⟨t₂, hmiddle, hsecret⟩ := runAll_append.mp hlater
  have hdir₂ : t₂.IsDirectory d := by
    refine hdir.runAll (fun s hs => ?_) hmiddle
    obtain ⟨x, -, hconcerns⟩ := concerns_textSteps d r s hs
    exact ⟨x, hconcerns⟩
  have hne : FileStore.keepSecret (d ++ ["key.pem"]) r.key.text ≠ [] := by
    unfold FileStore.keepSecret
    split <;> simp
  exact ⟨hdir', ⟨mode, hrecord.trans hwritten.self⟩,
    hdir₂.kept_keepSecret isName_key (List.append_nil _).symm hne hsecret⟩

/-- A save in a directory that takes files, or where there is nothing yet, succeeds. It changes
nothing but the directory of the record, and leaves the record with its key in it. -/
theorem saveSteps_run {parent : FilePath} (h : t.IsOpen parent) (hx : IsName x)
    (hfree : ∀ e, t.entries.lookup (parent ++ [x]) = some e → ∃ mode, e = .directory mode false)
    (hfiles : ∀ y e, t.entries.lookup (parent ++ [x] ++ [y]) = some e → e.isDirectory = false)
    (r : CertificateRecord) :
    ∃ t', FileStep.runAll t (FileStore.saveSteps (parent ++ [x]) r) = (.ok (), t') ∧
      t'.Keeps (parent ++ [x]) r r.key ∧ t'.Ready (parent ++ [x]) ∧
        (∃ mode, t'.entries.lookup (parent ++ [x]) = some (.directory mode false)) ∧
          (∀ q, q ≠ parent ++ [x] → (∀ y, q ≠ parent ++ [x] ++ [y]) →
            t'.entries.lookup q = t.entries.lookup q) ∧ (t.Distinct → t'.Distinct) := by
  obtain ⟨t₁, mode, hmake, hsets⟩ := makeDirectories_sets h hx hfree
  have hready : t₁.Ready (parent ++ [x]) := by
    refine ⟨⟨mode, ?_⟩, fun y e he => hfiles y e ?_⟩
    · rw [(h.congr (hsets.locate (not_below_itself parent x))).locate_concat hx, hsets.self]
    · rwa [hsets.frame _ (by simp)] at he
  obtain ⟨t', hrun, hwithin⟩ := hready.runAll r
  refine ⟨t', ?_, hready.isOpen.isDirectory.keeps hrun, hwithin.ready, ⟨mode, ?_⟩, ?_, ?_⟩
  · rw [saveSteps_eq]
    exact runAll_cons.mpr ⟨t₁, hmake, hrun⟩
  · rw [hwithin.frame _ (by simp), hsets.self]
  · intro q hne hbelow
    rw [hwithin.frame q hbelow, hsets.frame q hne]
  · exact fun hd => hwithin.distinct (hsets.distinct hd)

end FileTree

end CertSteward
