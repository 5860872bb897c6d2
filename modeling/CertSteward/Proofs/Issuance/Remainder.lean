import CertSteward.Proofs.Issuance.Failures

/-!
# What is left of a domain

The table is to have an entry for a domain only while a run holds it or waits for it. Who has held a
domain *tidies up* when it lets it go: it removes the key, unless somebody else uses the cell at
this moment. But who only looked the cell up, because it was refused or gave up while it waited,
lets go of the cell and is gone. If the holder has tidied up before that, it found the cell in use,
and the entry stays until somebody holds the domain again and lets it go.

So there are two reasons for an entry, and no others: somebody uses its cell, or somebody has
released it and nobody has tidied up since. When all runs for a domain have ended only the second
one is left, and then the release was that of a run that never held the domain.

## Main definitions

* `Unswept` — somebody has released a cell, and nobody has tidied up since
* `Weave.Accounted` — there is a reason for each entry

## Main results

* `Weave.accounted_of_strides`, `Weave.lookup_isSome_iff` — when there is an entry
* `ends_with_tidy` — who held its domain tidies up in the end
* `Contending.entry_iff` — when there is one for runs, and what is left when they have ended
* `Contending.entry_stranded` — there may be something left
-/

namespace CertSteward

/-! ### Releases after which nobody has tidied up -/

/-- Somebody in `P` has released its cell, and nobody has tidied up the key since. -/
def Unswept (P : Nat → Prop) (k : String) (log : List Event) : Prop :=
  ∃ pre e post c, log = pre ++ e :: post ∧ e.act = .locks (.release c) ∧ P e.strand ∧
    ∀ x ∈ post, x.act ≠ .locks (.tidy k)

namespace Unswept

variable {P Q : Nat → Prop} {k : String} {log : List Event} {e : Event}

theorem append_iff : Unswept P k (log ++ [e]) ↔
    ((∃ c, e.act = .locks (.release c)) ∧ P e.strand) ∨
      (Unswept P k log ∧ e.act ≠ .locks (.tidy k)) := by
  constructor
  · rintro ⟨pre, e', post, c, hlog, hact, hP, hpost⟩
    obtain rfl | ⟨post, x, rfl⟩ := List.eq_nil_or_concat post
    · obtain ⟨-, h⟩ := List.append_inj' hlog rfl
      cases h
      exact .inl ⟨⟨c, hact⟩, hP⟩
    · rw [List.concat_eq_append, ← List.cons_append, ← List.append_assoc] at hlog
      obtain ⟨rfl, h⟩ := List.append_inj' hlog rfl
      cases h
      rw [List.concat_eq_append] at hpost
      exact .inr ⟨⟨pre, e', post, c, rfl, hact, hP, fun x hx =>
        hpost x (List.mem_append_left _ hx)⟩, hpost e (List.mem_append_right _ List.mem_cons_self)⟩
  · rintro (⟨⟨c, hact⟩, hP⟩ | ⟨⟨pre, e', post, c, rfl, hact, hP, hpost⟩, hne⟩)
    · exact ⟨log, e, [], c, rfl, hact, hP, fun _ hx => absurd hx List.not_mem_nil⟩
    · refine ⟨pre, e', post ++ [e], c, by rw [List.append_assoc, List.cons_append], hact, hP, ?_⟩
      intro x hx
      obtain hx | hx := List.mem_append.mp hx
      · exact hpost x hx
      · rw [List.mem_singleton.mp hx]
        exact hne

/-- Who neither releases a cell nor tidies up changes nothing. -/
theorem append_iff_of_ne (hrelease : ∀ c, e.act ≠ .locks (.release c))
    (htidy : e.act ≠ .locks (.tidy k)) : Unswept P k (log ++ [e]) ↔ Unswept P k log := by
  rw [append_iff, and_iff_left htidy]
  exact or_iff_right fun ⟨⟨c, hact⟩, _⟩ => hrelease c hact

theorem mono (h : Unswept P k log) (hPQ : ∀ i, P i → Q i) : Unswept Q k log := by
  obtain ⟨pre, e, post, c, hlog, hact, hP, hpost⟩ := h
  exact ⟨pre, e, post, c, hlog, hact, hPQ _ hP, hpost⟩

end Unswept

namespace Weave

variable {β : Type} {program : Job → Steward Outcome} {K : Nat → String → Prop} {w u : Weave β}
variable {i c : Nat} {k : String} {s : Strand β}

/-! ### The reasons for entries -/

/-- There is a reason for each entry: somebody uses its cell, or somebody has released it and nobody
has tidied up since. -/
structure Accounted (K : Nat → String → Prop) (w : Weave β) : Prop where
  reason : ∀ k c, w.locks.index.lookup k = some c →
    (∃ i, (w.tenure i).cell? = some c) ∨ Unswept (K · k) k w.log
  kept : ∀ k, Unswept (K · k) k w.log → (w.locks.index.lookup k).isSome

/-- Nothing happens that has to do with keys and users. -/
theorem Accounted.of_same (hw : w.Accounted K) (same : u.locks.SameKeys w.locks)
    (cell : ∀ i, (u.tenure i).cell? = (w.tenure i).cell?)
    (log : u.log = w.log ∨ ∃ e, u.log = w.log ++ [e] ∧ e.act.KeepsKeys) : u.Accounted K := by
  have hunswept : ∀ k, Unswept (K · k) k u.log ↔ Unswept (K · k) k w.log := by
    intro k
    obtain hlog | ⟨e, hlog, hkeeps⟩ := log
    · rw [hlog]
    · rw [hlog]
      refine Unswept.append_iff_of_ne (fun c hact => ?_) fun hact => ?_
      all_goals
        rw [hact] at hkeeps
        exact hkeeps
  refine ⟨fun k c => ?_, fun k => ?_⟩
  · rw [same.index, hunswept]
    intro hlook
    exact (hw.reason k c hlook).imp_left fun ⟨i, hi⟩ => ⟨i, by rw [cell]; exact hi⟩
  · rw [same.index, hunswept]
    exact hw.kept k

/-- A strand looks its domain up, and so uses the cell. -/
theorem Accounted.obtain (hw : w.Accounted K)
    (answered : w.Answered u i s (.locks (.obtain k)) (w.locks.obtain k ()).1)
    (before : w.tenure i = .before) (locks : u.locks = (w.locks.obtain k ()).2) :
    u.Accounted K := by
  have hunswept : ∀ l, Unswept (K · l) l u.log ↔ Unswept (K · l) l w.log := by
    intro l
    rw [answered.log]
    exact Unswept.append_iff_of_ne nofun nofun
  refine ⟨fun l d hl => ?_, fun l hl => ?_⟩
  · rw [locks, MutexTable.lookup_obtain] at hl
    rw [hunswept]
    split at hl
    · cases hl
      exact .inl ⟨i, by rw [answered.tenure]; rfl⟩
    · refine (hw.reason l d hl).imp_left fun ⟨j, hj⟩ => ⟨j, ?_⟩
      rw [answered.tenure_of_ne (by rintro rfl; rw [before] at hj; cases hj)]
      exact hj
  · rw [locks, MutexTable.lookup_obtain]
    split
    · rfl
    · exact hw.kept l ((hunswept l).mp hl)

/-- A strand uses its cell no more, and leaves the key to others. -/
theorem Accounted.release (hw : w.Accounted K) (hh : w.Housed K)
    (hsame : ∀ i k l, K i k → K i l → k = l)
    (answered : w.Answered u i s (.locks (.release c)) ()) (before : w.tenure i = .out c)
    (locks : u.locks = w.locks.release c) : u.Accounted K := by
  have hcell : (w.tenure i).cell? = some c := by
    rw [before]
    rfl
  have hunswept : ∀ l, Unswept (K · l) l u.log ↔ K i l ∨ Unswept (K · l) l w.log := by
    intro l
    rw [answered.log, Unswept.append_iff]
    exact or_congr ⟨And.right, fun h => ⟨⟨c, rfl⟩, h⟩⟩ ⟨And.left, fun h => ⟨h, nofun⟩⟩
  refine ⟨fun l d hl => ?_, fun l hl => ?_⟩
  · rw [locks, MutexTable.index_release] at hl
    rw [hunswept]
    obtain ⟨j, hj⟩ | h := hw.reason l d hl
    · by_cases hji : j = i
      · subst hji
        exact .inr (.inl (hh.mine hj hl))
      · exact .inl ⟨j, by rw [answered.tenure_of_ne hji]; exact hj⟩
    · exact .inr (.inr h)
  · rw [locks, MutexTable.index_release]
    obtain h | h := (hunswept l).mp hl
    · -- the key of who releases led to its cell
      rw [hh.lookup_of_cell? (fun m => hsame i l m h) hcell]
      rfl
    · exact hw.kept l h

/-- Somebody tidies up. The key stays only if its cell is used. -/
theorem Accounted.tidy (hw : w.Accounted K) (hh : w.Housed K)
    (answered : w.Answered u i s (.locks (.tidy k)) ()) (locks : u.locks = w.locks.tidy k) :
    u.Accounted K := by
  have hlook : ∀ l d, u.locks.index.lookup l = some d ↔
      w.locks.index.lookup l = some d ∧ (l = k → w.locks.users d ≠ 0) := by
    intro l d
    rw [locks, MutexTable.lookup_tidy]
  have hunswept : ∀ l, Unswept (K · l) l u.log ↔ Unswept (K · l) l w.log ∧ l ≠ k := by
    intro l
    rw [answered.log, Unswept.append_iff]
    constructor
    · rintro (⟨⟨c, hact⟩, -⟩ | ⟨h, hne⟩)
      · cases hact
      · exact ⟨h, by rintro rfl; exact hne rfl⟩
    · rintro ⟨h, hne⟩
      exact .inr ⟨h, fun hact => by cases hact; exact hne rfl⟩
  refine ⟨fun l d hl => ?_, fun l hl => ?_⟩
  · obtain ⟨hold, hused⟩ := (hlook l d).mp hl
    by_cases hlk : l = k
    · obtain ⟨j, hj⟩ := (hh.users d).exists_of_ne_zero (hused hlk)
      exact .inl ⟨j, by rw [answered.tenure_of_tidy]; exact hj⟩
    · exact (hw.reason l d hold).imp (fun ⟨j, hj⟩ => ⟨j, by rw [answered.tenure_of_tidy]; exact hj⟩)
        fun h => (hunswept l).mpr ⟨h, hlk⟩
  · obtain ⟨h, hne⟩ := (hunswept l).mp hl
    obtain ⟨d, hd⟩ := Option.isSome_iff_exists.mp (hw.kept l h)
    exact Option.isSome_iff_exists.mpr ⟨d, (hlook l d).mpr ⟨hd, fun heq => absurd heq hne⟩⟩

theorem Accounted.stride (hw : w.Accounted K) (h : w.Heeds K) (hh : w.Housed K)
    (hsame : ∀ i k l, K i k → K i l → k = l) (stride : Stride program w u) : u.Accounted K := by
  cases stride.keyDeed h with
  | same keys cell log => exact hw.of_same keys cell log
  | obtain answered _ before locks => exact hw.obtain answered before locks
  | release answered before locks => exact hw.release hh hsame answered before locks
  | tidy answered _ locks => exact hw.tidy hh answered locks

section Started

variable {mains : List (Steward β)}

/-- **There is a reason for each entry.** -/
theorem accounted_of_strides (heeds : ∀ v, Strides program (start mains) v → v.Heeds K)
    (hsame : ∀ i k l, K i k → K i l → k = l) (h : Strides program (start mains) w) :
    w.Accounted K := by
  induction h with
  | refl =>
    refine ⟨nofun, ?_⟩
    rintro k ⟨pre, e, post, c, hlog, -⟩
    cases pre <;> cases hlog
  | step hlead hstride ih =>
    exact ih.stride (heeds _ hlead) (housed_of_strides heeds hlead) hsame hstride

/-- **There is an entry for a domain** as long as some strand uses its cell, and from a release
until somebody tidies up. -/
theorem lookup_isSome_iff (heeds : ∀ v, Strides program (start mains) v → v.Heeds K)
    (hsame : ∀ i k l, K i k → K i l → k = l) (h : Strides program (start mains) w) (k : String) :
    (w.locks.index.lookup k).isSome ↔
      (∃ i, K i k ∧ (w.tenure i).cell?.isSome) ∨ Unswept (K · k) k w.log := by
  have hh := housed_of_strides heeds h
  have hw := accounted_of_strides heeds hsame h
  constructor
  · intro hsome
    obtain ⟨c, hlook⟩ := Option.isSome_iff_exists.mp hsome
    refine (hw.reason k c hlook).imp_left fun ⟨i, hi⟩ => ⟨i, hh.mine hi hlook, ?_⟩
    rw [hi]
    rfl
  · rintro (⟨i, hk, hsome⟩ | hunswept)
    · obtain ⟨c, hcell⟩ := Option.isSome_iff_exists.mp hsome
      rw [hh.lookup_of_cell? (fun l => hsame i k l hk) hcell]
      rfl
    · exact hw.kept k hunswept

end Started

end Weave

/-! ### How runs let go -/

section Runs

variable {p : IssuancePractice} {r : IssuanceRequest} {mode : LockMode} {domain : String}
variable {path : List Happening} {x : Issued} {e : IssuanceError} {lock : Nat} {b c : Bool}

/-- Who is refused was never told that it holds its domain. -/
theorem unobtained_of_tryDomain (h : Steward.Ends b (tryDomain domain) path c none) :
    ∀ y ∈ path, y.obtainsDomain = false := by
  obtain ⟨_, rest, _, lock, rfl, hobtain, h₁⟩ := Steward.ends_bind_iff.mp h
  obtain ⟨rfl, -, -⟩ := Steward.ends_perform_iff.mp hobtain
  obtain ⟨_, rest, _, got, rfl, htry, h₂⟩ := Steward.ends_bind_iff.mp h₁
  obtain ⟨rfl, -, -⟩ := Steward.ends_perform_iff.mp htry
  cases got with
  | true =>
    obtain ⟨-, -, heq⟩ := Steward.ends_done_iff.mp h₂
    cases heq
  | false =>
    obtain ⟨_, rest, _, _, rfl, hrelease, h₃⟩ := Steward.ends_bind_iff.mp h₂
    obtain ⟨rfl, -, -⟩ := Steward.ends_perform_iff.mp hrelease
    obtain ⟨rfl, -, -⟩ := Steward.ends_done_iff.mp h₃
    simp [Happening.obtainsDomain]

/-- Who gives up was never told that it holds its domain. -/
theorem unobtained_of_waitForDomain
    (h : Steward.Ends b (waitForDomain domain) path c (.error e)) :
    ∀ y ∈ path, y.obtainsDomain = false := by
  obtain ⟨_, rest, _, isOn, rfl, hwatch, h₁⟩ := Steward.ends_bind_iff.mp h
  obtain ⟨rfl, -, -⟩ := Steward.ends_perform_iff.mp hwatch
  cases isOn with
  | false =>
    obtain ⟨rfl, -, -⟩ := Steward.ends_done_iff.mp h₁
    simp [Happening.obtainsDomain]
  | true =>
    obtain ⟨_, rest, _, lock, rfl, hobtain, h₂⟩ := Steward.ends_bind_iff.mp h₁
    obtain ⟨rfl, -, -⟩ := Steward.ends_perform_iff.mp hobtain
    obtain ⟨_, rest, _, got, rfl, hwait, h₃⟩ := Steward.ends_bind_iff.mp h₂
    obtain ⟨rfl, -, -⟩ := Steward.ends_perform_iff.mp hwait
    cases got with
    | some _ =>
      obtain ⟨_, rest, _, _, rfl, -, h₄⟩ := Steward.ends_bind_iff.mp h₃
      obtain ⟨-, -, heq⟩ := Steward.ends_done_iff.mp h₄
      cases heq
    | none =>
      obtain ⟨_, rest, _, _, rfl, hunwatch, h₄⟩ := Steward.ends_bind_iff.mp h₃
      obtain ⟨rfl, -, -⟩ := Steward.ends_perform_iff.mp hunwatch
      obtain ⟨_, rest, _, _, rfl, hrelease, h₅⟩ := Steward.ends_bind_iff.mp h₄
      obtain ⟨rfl, -, -⟩ := Steward.ends_perform_iff.mp hrelease
      obtain ⟨rfl, -, -⟩ := Steward.ends_done_iff.mp h₅
      simp [Happening.obtainsDomain]

theorem unobtained_of_lockDomain (h : Steward.Ends b (lockDomain domain mode) path c (.error e)) :
    ∀ y ∈ path, y.obtainsDomain = false := by
  cases mode with
  | wait => exact unobtained_of_waitForDomain h
  | skip =>
    obtain ⟨tried, rest, _, got, rfl, htried, hrest⟩ := Steward.ends_bind_iff.mp h
    cases got with
    | some lock =>
      obtain ⟨-, -, heq⟩ := Steward.ends_done_iff.mp hrest
      cases heq
    | none =>
      obtain ⟨rfl, -, -⟩ := Steward.ends_done_iff.mp hrest
      rw [List.append_nil]
      exact unobtained_of_tryDomain htried

/-- Who lets its domain go tidies up in the end. -/
theorem ends_unlockDomain (h : Steward.Ends b (unlockDomain domain lock) path c ()) :
    ∃ before, path = before ++ [⟨.locks (.tidy domain), ()⟩] := by
  obtain ⟨_, rest, _, _, rfl, -, h₁⟩ := Steward.ends_bind_iff.mp h
  obtain ⟨_, rest, _, _, rfl, -, h₂⟩ := Steward.ends_bind_iff.mp h₁
  obtain ⟨rfl, -, -⟩ := Steward.ends_perform_iff.mp h₂
  exact ⟨_, (List.append_assoc ..).symm⟩

/-- **Who held its domain tidies up in the end.** -/
theorem ends_with_tidy (h : Steward.Ends b (issueCertificate p r mode) path c x)
    (hgiven : ∃ y ∈ path, y.obtainsDomain = true) : ∃ normal before, r.normal = .ok normal ∧
      path = before ++ [⟨.locks (.tidy normal.primary), ()⟩] := by
  -- a key is no domain
  have hkey : ∀ {key : Except MaterialError KeyPair} {rest : List Happening},
      (∀ y ∈ rest, y.obtainsDomain = false) →
      ¬ ∃ y ∈ ⟨.freshKey p.settings.key, key⟩ :: rest, y.obtainsDomain = true := by
    rintro key rest hrest ⟨y, hy, hobtains⟩
    obtain rfl | hy := List.mem_cons.mp hy
    · cases hobtains
    · rw [hrest y hy] at hobtains
      cases hobtains
  cases route_of_ends h with
  | invalid =>
    obtain ⟨y, hy, -⟩ := hgiven
    exact absurd hy List.not_mem_nil
  | unsigned => exact absurd hgiven (hkey fun _ hy => absurd hy List.not_mem_nil)
  | refused _ locks => exact absurd hgiven (hkey (unobtained_of_lockDomain locks))
  | @held normal key _ _ _ locked held _ _ _ _ _ _ _ isNormal _ _ _ unlocks =>
    obtain ⟨before, rfl⟩ := ends_unlockDomain unlocks
    refine ⟨normal, ⟨.freshKey p.settings.key, key⟩ :: (locked ++ (held ++ before)), isNormal, ?_⟩
    simp only [List.cons_append, List.append_assoc]

end Runs

namespace Contending

variable {p : RenewalPractice} {requests : List (IssuanceRequest × LockMode)} {w : Weave Issued}
variable {i : Nat} {k l : String} {s : Strand Issued} {r : IssuanceRequest} {mode : LockMode}

/-- A run has one domain. -/
theorem domainOf_unique (hk : domainOf requests i k) (hl : domainOf requests i l) : k = l := by
  obtain ⟨_, _, hr, _, hnormal, rfl⟩ := hk
  obtain ⟨_, _, hr', _, hnormal', rfl⟩ := hl
  cases hr.symm.trans hr'
  cases hnormal.symm.trans hnormal'
  rfl

/-- Who has a domain is a run, and in its place. -/
theorem here_of_domainOf (h : Contending p requests w) (hk : domainOf requests i k) :
    ∃ r mode s, requests[i]? = some (r, mode) ∧ w.strands[i]? = some s := by
  obtain ⟨r, mode, hr, -⟩ := hk
  obtain ⟨s, here, -⟩ := h.main_here hr
  exact ⟨r, mode, s, hr, here⟩

/-- A run that has ended went all the way along its program. -/
theorem ends_of_ended (h : Contending p requests w) (hr : requests[i]? = some (r, mode))
    (here : w.strands[i]? = some s) (hended : s.stage = .ended) :
    ∃ b c x, Steward.Ends b (issueCertificate p.issuance r mode) (w.path i) c x := by
  obtain ⟨s', here', hmain, hrun⟩ := h.main_here hr
  cases here.symm.trans here'
  obtain ⟨y, hdone⟩ := (Weave.settled_of_strides h).ends i s here hended
  obtain ⟨b, program, -, hbegin, hgoes⟩ := Weave.onCourse_of_strides h i s here
  rw [hdone] at hgoes
  obtain ⟨-, main, hq, rfl⟩ | ⟨j, hjob, -⟩ := hbegin
  · rw [hrun, List.getElem?_map, hr] at hq
    cases hq
    obtain ⟨x, hends, -⟩ := Steward.ends_map_iff.mp hgoes
    exact ⟨b, _, x, hends⟩
  · rw [hmain] at hjob
    cases hjob

/-- A run that has not begun or has ended uses no cell. -/
theorem cell?_of_over (h : Contending p requests w) (hr : requests[i]? = some (r, mode))
    (here : w.strands[i]? = some s) (hover : s.stage = .idle ∨ s.stage = .ended) :
    (w.tenure i).cell? = none := by
  obtain hidle | hended := hover
  · rw [Weave.tenure, (Weave.settled_of_strides h).fresh i s here hidle]
    rfl
  · obtain ⟨b, c, x, hends⟩ := h.ends_of_ended hr here hended
    exact (keeps_tenancy p.issuance r mode).goes hends

/-- A run that has ended and after whose release nobody tidied up was refused, or gave up. -/
theorem unobtained_of_unswept {pre post : List Event} {e : Event} {c : Nat}
    (h : Contending p requests w) (hlog : w.log = pre ++ e :: post)
    (hact : e.act = .locks (.release c)) (hk : domainOf requests e.strand k)
    (hpost : ∀ x ∈ post, x.act ≠ .locks (.tidy k)) (here : w.strands[e.strand]? = some s)
    (hended : s.stage = .ended) : ∀ y ∈ w.path e.strand, y.obtainsDomain = false := by
  intro y hy
  refine Bool.eq_false_iff.mpr fun hobtains => ?_
  obtain ⟨r, mode, hr, normal, hnormal, rfl⟩ := hk
  obtain ⟨b, d, x, hends⟩ := h.ends_of_ended hr here hended
  obtain ⟨normal', before, hnormal', hpath⟩ := ends_with_tidy hends ⟨y, hy, hobtains⟩
  cases hnormal.symm.trans hnormal'
  -- the last request of the run comes after the release
  have hsplit : w.path e.strand =
      happenings pre e.strand ++ ⟨e.act, e.answer⟩ :: happenings post e.strand := by
    simp [Weave.path, happenings, hlog]
  have hlast : (⟨.locks (.tidy normal.primary), ()⟩ : Happening) ∈
      ⟨e.act, e.answer⟩ :: happenings post e.strand := by
    have htidy : (w.path e.strand).getLast? = some ⟨.locks (.tidy normal.primary), ()⟩ := by
      rw [hpath, List.getLast?_concat]
    rw [hsplit, List.getLast?_append, List.getLast?_cons, Option.some_or] at htidy
    exact List.mem_of_getLast? (List.getLast?_cons.trans htidy)
  obtain heq | hmem := List.mem_cons.mp hlast
  · cases (congrArg Sigma.fst heq).trans hact
  · obtain ⟨x, hx, -, heq⟩ := mem_happenings.mp hmem
    exact hpost x hx (congrArg Sigma.fst heq)

/-- **What is left of a domain.** However runs come between each other and wherever they are
cancelled, there is an entry for a domain as long as a run uses its cell, be it that the run holds
it, waits for it or has only looked it up; and besides, from a release until somebody tidies up.
When all runs for the domain have ended, there is an entry exactly if a run that was refused or gave
up released the cell, and nobody tidied up after that. -/
theorem entry_iff (h : Contending p requests w) (k : String) :
    ((w.locks.index.lookup k).isSome ↔
      (∃ i, domainOf requests i k ∧ (w.tenure i).cell?.isSome) ∨
        Unswept (domainOf requests · k) k w.log) ∧
    ((∀ i s, domainOf requests i k → w.strands[i]? = some s →
        s.stage = .idle ∨ s.stage = .ended) →
      ((w.locks.index.lookup k).isSome ↔
        Unswept (fun i => domainOf requests i k ∧
          ∀ y ∈ happenings w.log i, y.obtainsDomain = false) k w.log)) := by
  have hiff := Weave.lookup_isSome_iff (fun _ => heeds) (fun _ _ _ => domainOf_unique) h k
  refine ⟨hiff, fun hover => hiff.trans ⟨?_, fun hleft => .inr (hleft.mono fun _ => And.left)⟩⟩
  rintro (⟨i, hk, hsome⟩ | ⟨pre, e, post, c, hlog, hact, hk, hpost⟩)
  · obtain ⟨r, mode, s, hr, here⟩ := h.here_of_domainOf hk
    rw [h.cell?_of_over hr here (hover i s hk here)] at hsome
    cases hsome
  · obtain ⟨-, -, s, -, here⟩ := h.here_of_domainOf hk
    refine ⟨pre, e, post, c, hlog, hact, ⟨hk, ?_⟩, hpost⟩
    obtain hidle | hended := hover e.strand s hk here
    · -- who has not begun has released nothing
      have hmem : (⟨e.act, e.answer⟩ : Happening) ∈ w.path e.strand :=
        mem_happenings.mpr ⟨e, by rw [hlog]; exact List.mem_append_right _ List.mem_cons_self, rfl,
          rfl⟩
      rw [(Weave.settled_of_strides h).fresh e.strand s here hidle] at hmem
      exact absurd hmem List.not_mem_nil
    · exact h.unobtained_of_unswept hlog hact hk hpost here hended

/-! ### An entry that stays -/

/-- Two requests for one domain. Neither run waits for it. -/
def impatient : List (IssuanceRequest × LockMode) :=
  [(⟨"Example.COM.", [], false⟩, .skip), (⟨"example.com", [], false⟩, .skip)]

/-- Runs are cancelled as soon as they hold their domain. -/
def cancelledAnswers : (a : Act) → Option a.Answer
  | .watch => some false
  | a => blankAnswers a

/-- The second run is refused, and lets go of the cell only after the first run has tidied up. -/
def stranded : Option (Weave Issued) :=
  ([0, 0, 0, 0, 1, 1, 1, 1] ++ List.replicate 11 0 ++ [1, 1]).foldlM
    (Weave.play ({} : RenewalPractice).program cancelledAnswers)
    (Weave.start (impatient.map fun (r, mode) => issueCertificate {} r mode))

theorem stranded_ends : stranded.map (fun w => (w.strands.all fun s => decide (s.stage = .ended),
    (w.locks.index.lookup "example.com").isSome)) = some (true, true) := by
  rfl

theorem exists_stranded : ∃ w, Contending {} impatient w ∧
    (∀ s ∈ w.strands, s.stage = .ended) ∧ (w.locks.index.lookup "example.com").isSome := by
  obtain ⟨w, hw, hends⟩ := Option.map_eq_some_iff.mp stranded_ends
  obtain ⟨hended, hsome⟩ := Prod.mk.inj hends
  exact ⟨w, Weave.strides_of_play hw,
    fun s hs => of_decide_eq_true (List.all_eq_true.mp hended s hs), hsome⟩

/-- One of the runs was refused, and nobody tidied up when it had let go. -/
theorem entry_of_impatient : ∃ w, Contending {} impatient w ∧ (∀ s ∈ w.strands, s.stage = .ended) ∧
    Unswept (fun i => domainOf impatient i "example.com" ∧
      ∀ y ∈ happenings w.log i, y.obtainsDomain = false) "example.com" w.log := by
  obtain ⟨w, hw, hended, hsome⟩ := exists_stranded
  obtain ⟨-, hiff⟩ := entry_iff hw "example.com"
  have hover : ∀ i s, domainOf impatient i "example.com" → w.strands[i]? = some s →
      s.stage = .idle ∨ s.stage = .ended :=
    fun _ s _ here => .inr (hended s (List.mem_of_getElem? here))
  exact ⟨w, hw, hended, (hiff hover).mp hsome⟩

/-- There may be an entry for a domain that no run holds or waits for. -/
theorem entry_stranded : ¬ ∀ p requests w k, Contending p requests w →
    (∀ i s, domainOf requests i k → w.strands[i]? = some s →
      s.stage = .idle ∨ s.stage = .ended) → w.locks.index.lookup k = none := by
  intro hnone
  obtain ⟨w, hw, hended, hsome⟩ := exists_stranded
  rw [hnone _ _ w "example.com" hw fun _ s _ here =>
    .inr (hended s (List.mem_of_getElem? here))] at hsome
  cases hsome

end Contending

end CertSteward
