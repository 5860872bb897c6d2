import CertSteward.Proofs.Store.Saving

/-!
# Saves that fail

The record and its key are in two files, of which the first is written at the start of a save and
the second at the end, and nothing ties them together. A save that fails in between therefore
leaves the new record with the key that was there before.

Writing a file empties it first. When it breaks off, what is in the file is the beginning of the
new text, and what was there before is lost. No beginning of a record is read as a record, so a
record whose writing broke off cannot be loaded at all; a key whose writing broke off is loaded as
far as it got. Nothing else that is mixed is ever loaded.

## Main definitions

* `FileStep.Fails` — what an action leaves that fails
* `FileStep.Interrupted` — what is left of a tree when one of several actions fails
* `FileStore.Stores` — that a record is in its files
* `FileStore.FailedSave` — what a save leaves that fails
* `FileStore.AfterFailure` — what is loaded then

## Main results

* `FileTree.Keeps.interrupted`, `FileTree.Bare.interrupted` — what a save that broke off has left
* `FileStore.load_of_failedSave` — what is loaded after a save that failed
* `FileStore.save_obstructed` — a certificate with the key of another one
-/

namespace CertSteward

namespace FileStep

open FileTree

variable {t t' : FileTree} {steps : List FileStep} {torn : Option FilePath}

/-- What an action leaves that fails: the tree as it was, or some of the directories that it makes,
or the beginning of the text that it writes. In the last case the file is torn. -/
inductive Fails (t : FileTree) : FileStep → Option FilePath → FileTree → Prop
  | unchanged (step : FileStep) : Fails t step none t
  | directories {p made : FilePath} {t' : FileTree} (hmade : made <+: p)
      (hrun : t.makeDirectories made = .ok t') : Fails t (.makeDirectories p) none t'
  | torn {p : FilePath} {content : String} {part : List UInt8} {t' : FileTree}
      (hpart : IsCut part (Utf8.encode content)) (hrun : t.write p part = .ok t') :
      Fails t (.write p content) (some p) t'

/-- What is left of a tree when one of several actions fails: those before it are done, and it may
have torn the file that it writes. -/
def Interrupted (t : FileTree) (steps : List FileStep) (torn : Option FilePath) (t' : FileTree) :
    Prop :=
  ∃ done step rest t₁, steps = done ++ step :: rest ∧ runAll t done = (.ok (), t₁) ∧
    Fails t₁ step torn t'

/-- Actions that were ended by a failure have been interrupted. -/
theorem interrupted_of_runAll {fault : FileFault} (h : runAll t steps = (.error fault, t')) :
    Interrupted t steps none t' := by
  induction steps generalizing t with
  | nil => cases h
  | cons step steps ih =>
    rw [runAll] at h
    cases hstep : step.run t with
    | error fault =>
      rw [hstep] at h
      cases h
      exact ⟨[], step, steps, _, rfl, rfl, .unchanged step⟩
    | ok t₁ =>
      rw [hstep] at h
      obtain ⟨done, next, rest, t₂, rfl, hrun, hfails⟩ := ih h
      exact ⟨step :: done, next, rest, t₂, rfl, runAll_cons.mpr ⟨t₁, hstep, hrun⟩, hfails⟩

/-- The one text that is written to keep a secret. -/
theorem eq_of_write_mem_keepSecret {p q : FilePath} {content text : String}
    (h : .write q text ∈ FileStore.keepSecret p content) : q = p ∧ text = content := by
  unfold FileStore.keepSecret at h
  split at h
  · simp at h
  · simpa using h

end FileStep

namespace FileTree

open FileStep

variable {t t₁ t' : FileTree} {d : FilePath} {x : String} {r old : CertificateRecord}
  {done rest : List FileStep} {step : FileStep} {torn : Option FilePath}

/-- What has become of the two files of a record that are read back, the record and the key, and
which of them is torn. -/
inductive Leftover (t : FileTree) (d : FilePath) (r : CertificateRecord) (t' : FileTree) :
    Option FilePath → Prop
  | untouched
    (record : t'.entries.lookup (d ++ ["record.json"]) = t.entries.lookup (d ++ ["record.json"]))
    (key : t'.entries.lookup (d ++ ["key.pem"]) = t.entries.lookup (d ++ ["key.pem"])) :
    Leftover t d r t' none
  | tornRecord {part : List UInt8} (hpart : IsCut part (Utf8.encode r.toJson.pretty))
    (record : ∃ mode, t'.entries.lookup (d ++ ["record.json"]) = some (.file part mode)) :
    Leftover t d r t' (some (d ++ ["record.json"]))
  | record {torn : Option FilePath} (hrecord : torn ≠ some (d ++ ["record.json"]))
    (hkey : torn ≠ some (d ++ ["key.pem"]))
    (record : ∃ mode, t'.entries.lookup (d ++ ["record.json"]) =
      some (.file (Utf8.encode r.toJson.pretty) mode))
    (key : t'.entries.lookup (d ++ ["key.pem"]) = t.entries.lookup (d ++ ["key.pem"])) :
    Leftover t d r t' torn
  | tornKey {part : List UInt8} (hpart : IsCut part (Utf8.encode r.key.text))
    (record : ∃ mode, t'.entries.lookup (d ++ ["record.json"]) =
      some (.file (Utf8.encode r.toJson.pretty) mode))
    (key : ∃ mode, t'.entries.lookup (d ++ ["key.pem"]) = some (.file part mode)) :
    Leftover t d r t' (some (d ++ ["key.pem"]))
  | both {torn : Option FilePath} (hrecord : torn ≠ some (d ++ ["record.json"]))
    (hkey : torn ≠ some (d ++ ["key.pem"]))
    (record : ∃ mode, t'.entries.lookup (d ++ ["record.json"]) =
      some (.file (Utf8.encode r.toJson.pretty) mode))
    (key : Kept (t'.entries.lookup (d ++ ["key.pem"])) r.key.text) :
    Leftover t d r t' torn

/-- The new record, with the key that was there before or the new one. -/
theorem leftover_of_record (hrecord : torn ≠ some (d ++ ["record.json"]))
    (hkey : torn ≠ some (d ++ ["key.pem"]))
    (hnew : ∃ mode, t'.entries.lookup (d ++ ["record.json"]) =
      some (.file (Utf8.encode r.toJson.pretty) mode))
    (h : t'.entries.lookup (d ++ ["key.pem"]) = t.entries.lookup (d ++ ["key.pem"]) ∨
      Kept (t'.entries.lookup (d ++ ["key.pem"])) r.key.text) : t.Leftover d r t' torn := by
  rcases h with hsame | hkept
  · exact .record hrecord hkey hnew hsame
  · exact .both hrecord hkey hnew hkept

/-- An action behind the writing of the record that fails leaves all as it was, or tears one of the
texts that are not read back, or the key. -/
theorem cases_of_fails (h : Fails t step torn t')
    (hmem : step ∈ textSteps d r ++ FileStore.keepSecret (d ++ ["key.pem"]) r.key.text) :
    (torn = none ∧ t' = t) ∨
      (∃ x v, (x = "cert.pem" ∨ x = "chain.pem") ∧ torn = some (d ++ [x]) ∧
        t.Sets (d ++ [x]) v t') ∨
      (torn = some (d ++ ["key.pem"]) ∧ ∃ part mode, IsCut part (Utf8.encode r.key.text) ∧
        t.Sets (d ++ ["key.pem"]) (some (.file part mode)) t') := by
  cases h with
  | unchanged => exact .inl ⟨rfl, rfl⟩
  | directories hmade hmake =>
    rcases List.mem_append.mp hmem with htext | hsecret
    · obtain ⟨x, -, hconcerns⟩ := concerns_textSteps d r _ htext
      cases hconcerns
    · cases concerns_keepSecret _ _ _ hsecret
  | torn hpart hwrite =>
    obtain ⟨mode, hsets⟩ := sets_of_write hwrite
    rcases List.mem_append.mp hmem with htext | hsecret
    · obtain ⟨x, hx, hconcerns⟩ := concerns_textSteps d r _ htext
      obtain rfl := hconcerns
      exact .inr (.inl ⟨x, _, hx, rfl, hsets⟩)
    · obtain ⟨rfl, rfl⟩ := eq_of_write_mem_keepSecret hsecret
      exact .inr (.inr ⟨rfl, _, mode, hpart, hsets⟩)

/-- What the actions behind the making of the directory leave when one of them fails. -/
theorem IsDirectory.leftover (h : t.IsDirectory d)
    (hsteps : .write (d ++ ["record.json"]) r.toJson.pretty ::
      (textSteps d r ++ FileStore.keepSecret (d ++ ["key.pem"]) r.key.text) = done ++ step :: rest)
    (hrun : FileStep.runAll t done = (.ok (), t₁)) (hfails : Fails t₁ step torn t') :
    t'.IsDirectory d ∧ t.Leftover d r t' torn := by
  cases done with
  | nil =>
    cases hrun
    obtain ⟨rfl, -⟩ := List.cons.inj hsteps
    cases hfails with
    | unchanged => exact ⟨h, .untouched rfl rfl⟩
    | torn hpart hwrite =>
      obtain ⟨mode, hwritten⟩ := sets_of_write hwrite
      exact ⟨h.congr (hwritten.locate (not_below_itself d _)),
        .tornRecord hpart ⟨mode, hwritten.self⟩⟩
  | cons first done =>
    simp only [List.cons_append, List.cons.injEq] at hsteps
    obtain ⟨rfl, hsteps⟩ := hsteps
    obtain ⟨t₂, hfirst, hlater⟩ := runAll_cons.mp hrun
    obtain ⟨mode, hwritten⟩ := sets_of_write hfirst
    have hdir : t₂.IsDirectory d := h.congr (hwritten.locate (not_below_itself d _))
    obtain ⟨hdir₁, hrecord, hkey⟩ := hdir.afterRecord hsteps hlater
    have hnew := hrecord.trans hwritten.self
    rw [hwritten.frame (d ++ ["key.pem"]) (by simp)] at hkey
    have hmem : step ∈ textSteps d r ++ FileStore.keepSecret (d ++ ["key.pem"]) r.key.text := by
      rw [hsteps]
      exact List.mem_append_right _ List.mem_cons_self
    rcases cases_of_fails hfails hmem with ⟨rfl, rfl⟩ | ⟨x, v, hx, rfl, hsets⟩ |
      ⟨rfl, part, mode', hpart, hsets⟩
    · exact ⟨hdir₁, leftover_of_record nofun nofun ⟨mode, hnew⟩ hkey⟩
    · have hne : x ≠ "record.json" ∧ x ≠ "key.pem" := by
        rcases hx with rfl | rfl
        · decide
        · decide
      refine ⟨hdir₁.congr (hsets.locate (not_below_itself d x)), leftover_of_record ?_ ?_ ?_ ?_⟩
      · simpa using hne.1
      · simpa using hne.2
      · exact ⟨mode, (hsets.frame _ (by simpa using hne.1.symm)).trans hnew⟩
      · rwa [hsets.frame _ (by simpa using hne.2.symm)]
    · exact ⟨hdir₁.congr (hsets.locate (not_below_itself d _)),
        .tornKey hpart ⟨mode, (hsets.frame _ (by simp)).trans hnew⟩ ⟨mode', hsets.self⟩⟩

end FileTree

/-! ### Saves that break off -/

namespace FileStore

/-- What is loaded after a save of `r` over `before` into a directory that failed and has torn a
file, or none. -/
structure AfterFailure (d : FilePath) (r : CertificateRecord) (before : Option CertificateRecord)
    (torn : Option FilePath) (loaded : Except StoreError (Option CertificateRecord)) : Prop where
  /-- A torn record cannot be loaded. -/
  record : torn = some (d ++ ["record.json"]) →
    loaded = .error .unreadable ∨ loaded = .error (.file .notText)
  /-- A torn key is loaded with the new record, as far as its characters go. -/
  key : torn = some (d ++ ["key.pem"]) → loaded = .error (.file .notText) ∨
    ∃ part, IsCut part.toList r.key.text.toList ∧ loaded = .ok (some (r.attachKey ⟨part⟩))
  /-- If neither is torn, what is loaded is the record that was there before, or the new one, or
  the new one with the key that was there before. -/
  whole : torn ≠ some (d ++ ["record.json"]) → torn ≠ some (d ++ ["key.pem"]) →
    loaded = .ok before ∨ loaded = .ok (some r) ∨
      loaded = .ok (some (r.attachKey (before.elim .none CertificateRecord.key)))

end FileStore

namespace FileTree

open FileStep FileStore

variable {t t' : FileTree} {d : FilePath} {x : String} {r old : CertificateRecord}
  {before : Option CertificateRecord} {torn : Option FilePath}

/-- A record that is torn is not read. -/
theorem IsDirectory.recordIn_torn (h : t.IsDirectory d) {part : List UInt8}
    (hpart : IsCut part (Utf8.encode r.toJson.pretty))
    (hrecord : ∃ mode, t.entries.lookup (d ++ ["record.json"]) = some (.file part mode)) :
    recordIn t d = .error .unreadable ∨ recordIn t d = .error (.file .notText) := by
  obtain ⟨mode, hrecord⟩ := hrecord
  rw [recordIn, h.readText?_bytes isName_record hrecord]
  cases htext : Utf8.decode? part with
  | none => exact .inr rfl
  | some text =>
    refine .inl ?_
    have hnone := CertificateRecord.ofText?_of_isCut (Utf8.isCut_of_decode? hpart htext)
    simp only [Option.elim_some, Function.comp_apply, mapError_ok, bind, Except.bind, hnone]
    rfl

/-- With a key that is torn, a record is read with as many characters of it as there are. -/
theorem IsDirectory.recordIn_tornKey (h : t.IsDirectory d) (hr : r.HasReadings)
    {part : List UInt8} (hpart : IsCut part (Utf8.encode r.key.text))
    (hrecord : ∃ mode, t.entries.lookup (d ++ ["record.json"]) =
      some (.file (Utf8.encode r.toJson.pretty) mode))
    (hkey : ∃ mode, t.entries.lookup (d ++ ["key.pem"]) = some (.file part mode)) :
    recordIn t d = .error (.file .notText) ∨
      ∃ part, IsCut part.toList r.key.text.toList ∧
        recordIn t d = .ok (some (r.attachKey ⟨part⟩)) := by
  obtain ⟨mode, hrecord⟩ := hrecord
  obtain ⟨mode', hkey⟩ := hkey
  rw [recordIn, h.readText?_file isName_record hrecord]
  simp only [mapError_ok, bind, Except.bind, hr.ofText?_pretty]
  rw [h.readText?_bytes isName_key hkey]
  cases htext : Utf8.decode? part with
  | none => exact .inl rfl
  | some text => exact .inr ⟨text, Utf8.isCut_of_decode? hpart htext, rfl⟩

/-- What is loaded depends on what has become of the record and the key. -/
theorem Leftover.afterFailure (h : t.Leftover d r t' torn) (hdir : t'.IsDirectory d)
    (hr : r.HasReadings)
    (hbefore : t'.entries.lookup (d ++ ["record.json"]) = t.entries.lookup (d ++ ["record.json"]) →
      t'.entries.lookup (d ++ ["key.pem"]) = t.entries.lookup (d ++ ["key.pem"]) →
        recordIn t' d = .ok before)
    (hkept : Kept (t.entries.lookup (d ++ ["key.pem"]))
      (before.elim PrivateKey.none CertificateRecord.key).text) :
    AfterFailure d r before torn (recordIn t' d) := by
  have hne : d ++ ["key.pem"] ≠ d ++ ["record.json"] := by simp
  cases h with
  | untouched hrecord hkey => exact ⟨nofun, nofun, fun _ _ => .inl (hbefore hrecord hkey)⟩
  | tornRecord hpart hrecord =>
    exact ⟨fun _ => hdir.recordIn_torn hpart hrecord,
      fun heq => absurd (Option.some.inj heq).symm hne, fun hne _ => absurd rfl hne⟩
  | record hrecord hkey hnew hsame =>
    have hkeeps : t'.Keeps d r (before.elim .none CertificateRecord.key) :=
      ⟨hdir, hnew, hsame ▸ hkept⟩
    exact ⟨fun heq => absurd heq hrecord, fun heq => absurd heq hkey,
      fun _ _ => .inr (.inr (hkeeps.recordIn hr))⟩
  | tornKey hpart hnew hkey =>
    exact ⟨fun heq => absurd (Option.some.inj heq) hne,
      fun _ => hdir.recordIn_tornKey hr hpart hnew hkey, fun _ hne => absurd rfl hne⟩
  | both hrecord hkey hnew hboth =>
    have hkeeps : t'.Keeps d r r.key := ⟨hdir, hnew, hboth⟩
    exact ⟨fun heq => absurd heq hrecord, fun heq => absurd heq hkey,
      fun _ _ => .inr (.inl (hkeeps.recordIn hr))⟩

/-- On the way down to a directory there is nothing to make. -/
theorem IsDirectory.makeDirectories (h : t.IsDirectory d) {made : FilePath} (hmade : made <+: d) :
    t.makeDirectories made = .ok t := by
  obtain ⟨e, hd, hdir⟩ := h
  obtain ⟨rest, rfl⟩ := hmade
  obtain ⟨e', hd', hbelow⟩ := exists_locate_of_append hd
  have hdir' : e'.isDirectory = true := by
    by_cases hrest : rest = []
    · subst hrest
      rw [List.append_nil, hd'] at hd
      cases hd
      exact hdir
    · exact hbelow hrest
  cases e' with
  | file content mode => cases hdir'
  | directory mode isSealed => rw [FileTree.makeDirectories, hd']

/-- A save over a record that breaks off. -/
theorem Keeps.interrupted (h : t.Keeps d old old.key) (hold : old.HasReadings)
    (hr : r.HasReadings) (hrun : Interrupted t (saveSteps d r) torn t') :
    AfterFailure d r (some old) torn (FileStore.recordIn t' d) := by
  obtain ⟨done, step, rest, t₁, hsteps, hdone, hfails⟩ := hrun
  have hleft : t'.IsDirectory d ∧ t.Leftover d r t' torn := by
    rw [saveSteps_eq] at hsteps
    cases done with
    | nil =>
      cases hdone
      obtain ⟨rfl, -⟩ := List.cons.inj hsteps
      cases hfails with
      | unchanged => exact ⟨h.directory, .untouched rfl rfl⟩
      | directories hmade hmake =>
        rw [h.directory.makeDirectories hmade] at hmake
        cases hmake
        exact ⟨h.directory, .untouched rfl rfl⟩
    | cons first done =>
      simp only [List.cons_append, List.cons.injEq] at hsteps
      obtain ⟨rfl, hsteps⟩ := hsteps
      obtain ⟨t₂, hfirst, hlater⟩ := runAll_cons.mp hdone
      obtain rfl : t = t₂ := Except.ok.inj
        ((h.directory.makeDirectories List.prefix_rfl).symm.trans hfirst)
      exact h.directory.leftover hsteps hlater hfails
  obtain ⟨hdir, hleft⟩ := hleft
  refine hleft.afterFailure hdir hr (fun hrecord hkey => ?_) h.key
  have hkeeps : t'.Keeps d old old.key := ⟨hdir, hrecord ▸ h.record, hkey ▸ h.key⟩
  exact hkeeps.recordIn hold

/-- The directory of a record that is made where there was nothing has nothing in it. -/
theorem Bare.made {parent : FilePath} (h : t.Bare parent x)
    (hmake : t.makeDirectories (parent ++ [x]) = .ok t') :
    t'.IsDirectory (parent ++ [x]) ∧ ∀ y, t'.entries.lookup (parent ++ [x] ++ [y]) = none := by
  obtain ⟨t₁, mode, hmake₁, hsets⟩ := makeDirectories_sets h.isOpen h.isName fun e he => by
    rw [h.missing] at he
    cases he
  obtain rfl : t₁ = t' := Except.ok.inj (hmake₁.symm.trans hmake)
  refine ⟨⟨.directory mode false, ?_, rfl⟩, fun y => ?_⟩
  · rw [(h.isOpen.congr (hsets.locate (not_below_itself parent x))).locate_concat h.isName,
      hsets.self]
  · rw [hsets.frame _ (by simp), h.below]

/-- A first save that breaks off. -/
theorem Bare.interrupted {parent : FilePath} (h : t.Bare parent x) (hr : r.HasReadings)
    (hrun : Interrupted t (saveSteps (parent ++ [x]) r) torn t') :
    AfterFailure (parent ++ [x]) r none torn (FileStore.recordIn t' (parent ++ [x])) := by
  obtain ⟨done, step, rest, t₁, hsteps, hdone, hfails⟩ := hrun
  rw [saveSteps_eq] at hsteps
  cases done with
  | nil =>
    cases hdone
    obtain ⟨rfl, -⟩ := List.cons.inj hsteps
    cases hfails with
    | unchanged => exact ⟨nofun, nofun, fun _ _ => .inl h.recordIn⟩
    | @directories _ made _ hmade hmake =>
      refine ⟨nofun, nofun, fun _ _ => .inl ?_⟩
      rcases List.prefix_concat_iff.mp hmade with rfl | habove
      · obtain ⟨hdir, hnone⟩ := h.made hmake
        exact hdir.recordIn_none (hnone _)
      · rw [h.isOpen.isDirectory.makeDirectories habove] at hmake
        cases hmake
        exact h.recordIn
  | cons first done =>
    simp only [List.cons_append, List.cons.injEq] at hsteps
    obtain ⟨rfl, hsteps⟩ := hsteps
    obtain ⟨t₂, hfirst, hlater⟩ := runAll_cons.mp hdone
    obtain ⟨hdir₂, hnone⟩ := h.made hfirst
    obtain ⟨hdir, hleft⟩ := hdir₂.leftover hsteps hlater hfails
    refine hleft.afterFailure hdir hr (fun hrecord _ => ?_) (hnone _)
    exact hdir.recordIn_none (hrecord.trans (hnone _))

end FileTree

/-! ### Saves of a store -/

namespace FileStore

open FileTree FileStep

variable {s s' : FileStore} {r old : CertificateRecord} {torn : Option FilePath}

/-- That the files of a record are there with its key, as a save leaves them. -/
def Stores (s : FileStore) (r : CertificateRecord) : Prop :=
  isStorable r.id ∧ s.tree.Keeps (s.recordsPath ++ [r.id]) r r.key

/-- What a save leaves that fails, and the file that it has torn, if any: it has failed by itself,
or one of its actions was made to. -/
def FailedSave (s : FileStore) (r : CertificateRecord) (torn : Option FilePath)
    (s' : FileStore) : Prop :=
  (torn = none ∧ ∃ e, s.save r = (.error e, s')) ∨
    (isStorable r.id ∧ s'.base = s.base ∧
      Interrupted s.tree (saveSteps (s.recordsPath ++ [r.id]) r) torn s'.tree)

/-- A save under a name that records may have fails in one of its actions. -/
theorem FailedSave.interrupted (h : s.FailedSave r torn s') (hid : isStorable r.id) :
    s'.base = s.base ∧
      Interrupted s.tree (saveSteps (s.recordsPath ++ [r.id]) r) torn s'.tree := by
  rcases h with ⟨rfl, e, hsave⟩ | ⟨-, hbase, hrun⟩
  · rw [save, recordPath, if_pos hid] at hsave
    simp only [Prod.mk.injEq] at hsave
    obtain ⟨herror, rfl⟩ := hsave
    refine ⟨rfl, ?_⟩
    cases hrun : runAll s.tree (saveSteps (s.recordsPath ++ [r.id]) r) with
    | mk result tree =>
      rw [hrun] at herror
      cases result with
      | ok _ => cases herror
      | error fault => exact interrupted_of_runAll hrun
  · exact ⟨hbase, hrun⟩

theorem load_of_storable (h : isStorable r.id) :
    s.load r.id = recordIn s.tree (s.recordsPath ++ [r.id]) := by
  rw [load, recordPath, if_pos h]

theorem Stores.load (h : s.Stores r) (hr : r.HasReadings) : s.load r.id = .ok (some r) := by
  rw [load_of_storable h.1, h.2.recordIn hr]
  rfl

/-- What is loaded after a save that failed, over a record or where there was none. -/
theorem load_of_failedSave (h : s.FailedSave r torn s') (hr : r.HasReadings) :
    (∀ old, s.Stores old → old.HasReadings → old.id = r.id →
      AfterFailure (s.recordsPath ++ [r.id]) r (some old) torn (s'.load r.id)) ∧
    (s.tree.Bare s.recordsPath r.id →
      AfterFailure (s.recordsPath ++ [r.id]) r none torn (s'.load r.id)) := by
  by_cases hid : isStorable r.id
  case neg =>
    have hload : s'.load r.id = .ok none := by rw [load, recordPath, if_neg hid]
    rcases h with ⟨rfl, -⟩ | ⟨hid', -⟩
    · exact ⟨fun old hold _ hsame => absurd (hsame ▸ hold.1) hid,
        fun _ => ⟨nofun, nofun, fun _ _ => .inl hload⟩⟩
    · exact absurd hid' hid
  obtain ⟨hbase, hrun⟩ := h.interrupted hid
  have hload : s'.load r.id = recordIn s'.tree (s.recordsPath ++ [r.id]) := by
    rw [load_of_storable hid, recordsPath, hbase, recordsPath]
  rw [hload]
  refine ⟨?_, fun hbare => hbare.interrupted hr hrun⟩
  rintro old ⟨-, hkeeps⟩ hold hsame
  rw [hsame] at hkeeps
  exact hkeeps.interrupted hold hr hrun

/-- A record as it was first issued. -/
def earlier : CertificateRecord where
  id := "cert_1"
  domainId := "dom-1"
  primaryDomain := "example.com"
  certificate := "OLD CERTIFICATE"
  key := ⟨"OLD KEY"⟩
  issuedAt := some ⟨1704153600, 0⟩
  expiresAt := some ⟨1711929600, 0⟩
  autoRenew := true
  status := .issued
  createdAt := ⟨1704067200, 0⟩
  updatedAt := ⟨1704153600, 0⟩

/-- `earlier` when it has been renewed. -/
def renewed : CertificateRecord :=
  { earlier with
    certificate := "NEW CERTIFICATE"
    chain := "NEW CHAIN"
    key := ⟨"NEW KEY"⟩
    issuedAt := some ⟨1709337600, 0⟩
    expiresAt := some ⟨1717200000, 0⟩
    updatedAt := ⟨1709337600, 0⟩ }

/-- A store with `earlier` in it, in which a directory stands where the chain should go. -/
def obstructed : FileStore where
  base := ["data"]
  tree := ⟨[(["data", "records", "cert_1", "chain.pem"], .directory 0o755 false),
    (["data", "records", "cert_1", "key.pem"], .file (Utf8.encode "OLD KEY") 0o600),
    (["data", "records", "cert_1", "cert.pem"], .file (Utf8.encode "OLD CERTIFICATE") 0o644),
    (["data", "records", "cert_1", "record.json"],
      .file (Utf8.encode earlier.toJson.pretty) 0o644),
    (["data", "records", "cert_1"], .directory 0o755 false),
    (["data", "records"], .directory 0o700 false), (["data"], .directory 0o700 false)]⟩

theorem hasReadings_renewed : renewed.HasReadings where
  issuedAt := by rintro a ⟨⟩; exact ⟨by decide, by decide, by decide⟩
  expiresAt := by rintro a ⟨⟩; exact ⟨by decide, by decide, by decide⟩
  createdAt := ⟨by decide, by decide, by decide⟩
  updatedAt := ⟨by decide, by decide, by decide⟩

theorem hasReadings_earlier : earlier.HasReadings where
  issuedAt := by rintro a ⟨⟩; exact ⟨by decide, by decide, by decide⟩
  expiresAt := by rintro a ⟨⟩; exact ⟨by decide, by decide, by decide⟩
  createdAt := ⟨by decide, by decide, by decide⟩
  updatedAt := ⟨by decide, by decide, by decide⟩

theorem stores_earlier : obstructed.Stores earlier :=
  ⟨by decide, ⟨_, rfl, rfl⟩, ⟨_, rfl⟩, kept_file (by decide) ⟨_, rfl⟩⟩

/-- A save that cannot write the chain leaves the new certificate with the old key. -/
theorem save_obstructed : obstructed.Stores earlier ∧
    (obstructed.save renewed).1 = .error (.file .isDirectory) ∧
      (obstructed.save renewed).2.load "cert_1" = .ok (some (renewed.attachKey earlier.key)) ∧
        renewed.attachKey earlier.key ≠ earlier ∧ renewed.attachKey earlier.key ≠ renewed := by
  have hkeeps : (obstructed.save renewed).2.tree.Keeps ["data", "records", "cert_1"] renewed
      earlier.key := ⟨⟨_, rfl, rfl⟩, ⟨_, rfl⟩, kept_file (by decide) ⟨_, rfl⟩⟩
  exact ⟨stores_earlier, rfl, hkeeps.recordIn hasReadings_renewed, by decide, by decide⟩

/-- `obstructed` when the writing of the new record has broken off at once. -/
def emptied : FileStore :=
  { obstructed with
    tree := obstructed.tree.change ["data", "records", "cert_1", "record.json"]
      fun e => .file [] e.mode }

/-- What is loaded after that save, and after one that empties the record, is what
`load_of_failedSave` allows. The emptied record is lost. -/
theorem load_of_obstructed :
    (obstructed.FailedSave renewed none (obstructed.save renewed).2 ∧
      obstructed.FailedSave renewed (some ["data", "records", "cert_1", "record.json"]) emptied) ∧
    renewed.HasReadings ∧ obstructed.Stores earlier ∧ earlier.HasReadings ∧
      AfterFailure ["data", "records", "cert_1"] renewed (some earlier) none
        ((obstructed.save renewed).2.load "cert_1") ∧
      AfterFailure ["data", "records", "cert_1"] renewed (some earlier)
        (some ["data", "records", "cert_1", "record.json"]) (emptied.load "cert_1") ∧
      emptied.load "cert_1" = .error .unreadable := by
  have hfailed : obstructed.FailedSave renewed none (obstructed.save renewed).2 := .inl ⟨rfl, _, rfl⟩
  have hemptied : obstructed.FailedSave renewed
      (some ["data", "records", "cert_1", "record.json"]) emptied := by
    refine .inr ⟨by decide, rfl, [.makeDirectories ["data", "records", "cert_1"]],
      .write ["data", "records", "cert_1", "record.json"] renewed.toJson.pretty, _, obstructed.tree,
      rfl, rfl, .torn ⟨Utf8.encode renewed.toJson.pretty, by decide +kernel, rfl⟩ rfl⟩
  exact ⟨⟨hfailed, hemptied⟩, hasReadings_renewed, stores_earlier, hasReadings_earlier,
    (load_of_failedSave hfailed hasReadings_renewed).1 earlier stores_earlier hasReadings_earlier
      rfl,
    (load_of_failedSave hemptied hasReadings_renewed).1 earlier stores_earlier hasReadings_earlier
      rfl, rfl⟩

end FileStore

end CertSteward
